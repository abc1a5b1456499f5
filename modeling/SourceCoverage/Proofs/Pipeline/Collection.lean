import SourceCoverage.Proofs.Pipeline.Effects

/-!
# What Deleting the Dead Symbols Keeps

What must not be deleted is said here without the traversal: a symbol is *reachable* if it is one
that others may look for, which makes it a root, or if something reachable refers to it or owns it.
Names need not be those of symbols. Where a body refers to a name that is no symbol, a variable may
still be owned by it, and is reachable through it; where nothing leads to the owner, the variable
goes, whether or not there ever was a function of that name.

A symbol that is reachable in a module is so in what is left of it, because the path to it consists
of reachable symbols alone. So there is nothing left to delete for a second time.

## Main results

* `Module.reachable_iff_alive`: what is reachable is what the traversal finds.
* `Module.Reachable.collected`: what is reachable is so in what is left.
* `PassAction.removeDeadSymbols_collects`: deleting keeps what is reachable, tells whether it
  deleted anything, and does all that there is to do.
-/

namespace SourceCoverage

namespace Module

variable {m m' : Module}

/-! ### What is reachable -/

/-- The linkages of definitions that may be deleted where they are not used. -/
def discardableLinkages : List Linkage := [.privateLinkage, .internalLinkage, .linkOnceOdr]

/-- A symbol is a **root** if it is only declared, if other modules may use it, or if it is a
variable in a section of its own. A variable with an owner is none. -/
inductive Root (m : Module) : String → Prop
  | declared {f : Function} : f ∈ m.functions → f.body = none → Root m f.name
  | exportedFunction {f : Function} : f ∈ m.functions → f.linkage ∉ discardableLinkages →
      Root m f.name
  | exportedVariable {g : Global} : g ∈ m.globals → g.owner = none →
      g.definition.linkage ∉ discardableLinkages → Root m g.name
  | placed {g : Global} {sectionName : String} : g ∈ m.globals → g.owner = none →
      g.definition.sectionName = some sectionName → Root m g.name

/-- A name is **reachable** if it is that of a root, if an instruction of a reachable function or
the value of a reachable variable refers to it, or if it is that of a variable whose owner is
reachable. -/
inductive Reachable (m : Module) : String → Prop
  | root {name : String} : m.Root name → Reachable m name
  | body {f : Function} {i : Instruction} {target : String} : Reachable m f.name →
      f ∈ m.functions → i ∈ f.instructions → target ∈ i.references → Reachable m target
  | value {g : Global} {target : String} : Reachable m g.name → g ∈ m.globals →
      target ∈ g.definition.value.references → Reachable m target
  | owned {g : Global} {owner : String} : Reachable m owner → g ∈ m.globals →
      g.owner = some owner → Reachable m g.name

/-- The linkages that are not discardable are those that keep a definition. -/
theorem not_mem_discardableLinkages_iff {linkage : Linkage} :
    linkage ∉ discardableLinkages ↔ linkage.isDiscardable = false := by
  cases linkage <;> decide

/-- The roots, as the traversal collects them. -/
theorem root_iff_mem_roots {name : String} : m.Root name ↔ name ∈ m.roots := by
  rw [roots, List.mem_append, List.mem_map, List.mem_map]
  constructor
  · intro h
    cases h with
    | declared hf hbody =>
        refine .inl ⟨_, List.mem_filter.2 ⟨hf, ?_⟩, rfl⟩
        simp [Function.isDeclaration, hbody]
    | exportedFunction hf hlinkage =>
        refine .inl ⟨_, List.mem_filter.2 ⟨hf, ?_⟩, rfl⟩
        simp [not_mem_discardableLinkages_iff.1 hlinkage]
    | exportedVariable hg howner hlinkage =>
        refine .inr ⟨_, List.mem_filter.2 ⟨hg, ?_⟩, rfl⟩
        simp [howner, not_mem_discardableLinkages_iff.1 hlinkage]
    | placed hg howner hsection =>
        refine .inr ⟨_, List.mem_filter.2 ⟨hg, ?_⟩, rfl⟩
        simp [howner, hsection]
  · rintro (⟨f, hf, rfl⟩ | ⟨g, hg, rfl⟩)
    · obtain ⟨hf, hroot⟩ := List.mem_filter.1 hf
      rcases Bool.or_eq_true_iff.1 hroot with hdeclared | hlinkage
      · exact .declared hf (Option.isNone_iff_eq_none.1 hdeclared)
      · exact .exportedFunction hf (not_mem_discardableLinkages_iff.2 (by simpa using hlinkage))
    · obtain ⟨hg, hroot⟩ := List.mem_filter.1 hg
      obtain ⟨howner, hkept⟩ := Bool.and_eq_true_iff.1 hroot
      have howner : g.owner = none := Option.isNone_iff_eq_none.1 howner
      rcases Bool.or_eq_true_iff.1 hkept with hlinkage | hsection
      · have hvisible := not_mem_discardableLinkages_iff.2 (by simpa using hlinkage)
        exact .exportedVariable hg howner hvisible
      · obtain ⟨sectionName, hsection⟩ := Option.isSome_iff_exists.1 hsection
        exact .placed hg howner hsection

/-- **What is reachable is alive**, and the other way round. -/
theorem reachable_iff_alive {name : String} : m.Reachable name ↔ m.Alive name := by
  constructor
  · intro h
    induction h with
    | root hroot => exact .root (root_iff_mem_roots.1 hroot)
    | body _ hf hi htarget ih => exact ih.needs (.body hf (List.mem_flatMap.2 ⟨_, hi, htarget⟩))
    | value _ hg htarget ih => exact ih.needs (.value hg htarget)
    | owned _ hg howner ih => exact ih.needs (.owned hg howner)
  · intro h
    refine h.induction (fun root hroot => .root (root_iff_mem_roots.2 hroot)) ?_
    intro source target hsource hneeds
    cases hneeds with
    | body hf htarget =>
        obtain ⟨i, hi, htarget⟩ := List.mem_flatMap.1 htarget
        exact .body hsource hf hi htarget
    | value hg htarget => exact .value hsource hg htarget
    | owned hg howner => exact .owned hsource hg howner

/-! ### What is left -/

/-- One module is what is left of another one when all that is not reachable is deleted: the other
symbols are what they were, in the order in which they were. -/
structure Collected (m m' : Module) : Prop where
  mem_functions_iff : ∀ f, f ∈ m'.functions ↔ f ∈ m.functions ∧ m.Reachable f.name
  mem_globals_iff : ∀ g, g ∈ m'.globals ↔ g ∈ m.globals ∧ m.Reachable g.name
  functions : m'.functions.Sublist m.functions
  globals : m'.globals.Sublist m.globals
  name : m'.name = m.name

/-- Deleting what is dead leaves what is reachable. -/
theorem collected_withoutDead (h : m.Unambiguous) : m.Collected m.withoutDead where
  mem_functions_iff := fun _ => by rw [mem_functions_withoutDead h, reachable_iff_alive]
  mem_globals_iff := fun _ => by rw [mem_globals_withoutDead h, reachable_iff_alive]
  functions := List.filter_sublist
  globals := List.filter_sublist
  name := rfl

/-- A root is one in what is left. -/
theorem Collected.root (h : m.Collected m') {name : String} (hroot : m.Root name) :
    m'.Root name := by
  have hreachable := Reachable.root hroot
  cases hroot with
  | declared hf hbody => exact .declared ((h.mem_functions_iff _).2 ⟨hf, hreachable⟩) hbody
  | exportedFunction hf hlinkage =>
      exact .exportedFunction ((h.mem_functions_iff _).2 ⟨hf, hreachable⟩) hlinkage
  | exportedVariable hg howner hlinkage =>
      exact .exportedVariable ((h.mem_globals_iff _).2 ⟨hg, hreachable⟩) howner hlinkage
  | placed hg howner hsection =>
      exact .placed ((h.mem_globals_iff _).2 ⟨hg, hreachable⟩) howner hsection

/-- **What is reachable is so in what is left**, since what leads to it is left as well. -/
theorem Reachable.collected (h : m.Collected m') {name : String} (hname : m.Reachable name) :
    m'.Reachable name := by
  induction hname with
  | root hroot => exact .root (h.root hroot)
  | body hsource hf hi htarget ih =>
      exact .body ih ((h.mem_functions_iff _).2 ⟨hf, hsource⟩) hi htarget
  | value hsource hg htarget ih =>
      exact .value ih ((h.mem_globals_iff _).2 ⟨hg, hsource⟩) htarget
  | owned hsource hg howner ih =>
      exact .owned ih ((h.mem_globals_iff _).2 ⟨hg, .owned hsource hg howner⟩) howner

/-- **Nothing is left to delete** when the dead symbols are deleted. -/
theorem withoutDead_withoutDead (h : m.Unambiguous) :
    m.withoutDead.withoutDead = m.withoutDead := by
  have hcollected := collected_withoutDead h
  have hkept : m.withoutDead.Unambiguous := h.restrict _
  have hfunctions : m.withoutDead.withoutDead.functions = m.withoutDead.functions := by
    refine List.filter_eq_self.2 fun f hf => decide_eq_true ?_
    have hreachable := ((hcollected.mem_functions_iff f).1 hf).2.collected hcollected
    exact (mem_liveSymbols_iff hkept).2 (reachable_iff_alive.1 hreachable)
  have hglobals : m.withoutDead.withoutDead.globals = m.withoutDead.globals := by
    refine List.filter_eq_self.2 fun g hg => decide_eq_true ?_
    have hreachable := ((hcollected.mem_globals_iff g).1 hg).2.collected hcollected
    exact (mem_liveSymbols_iff hkept).2 (reachable_iff_alive.1 hreachable)
  calc m.withoutDead.withoutDead
      = { m.withoutDead with functions := m.withoutDead.withoutDead.functions
                             globals := m.withoutDead.withoutDead.globals } := rfl
    _ = m.withoutDead := by rw [hfunctions, hglobals]

end Module

/-! ### The pass -/

namespace PassAction

/-- **Deleting the dead symbols** of a module without ambiguous names keeps what is reachable. It
says that it left the module alone exactly if it deleted nothing. Deleting once more, from where the
first time is settled or from any other coherent analyses, deletes nothing. -/
theorem removeDeadSymbols_collects {s : PassState} (h : s.module.Unambiguous)
    (hcoherent : s.analyses.Coherent s.module) :
    ∃ change s', removeDeadSymbols s = .ok change s' ∧ s.module.Collected s'.module ∧
      (change = .unchanged ↔ s'.module = s.module) ∧
      (∃ t, settle change s' = .ok () t ∧ t.module = s'.module ∧ t.analyses.Coherent t.module) ∧
      ∀ t : PassState, t.module = s'.module → t.analyses.Coherent t.module →
        ∃ t', removeDeadSymbols t = .ok .unchanged t' ∧ t'.module = s'.module := by
  obtain ⟨change, s', hrun, hmodule, hchange, hkept⟩ := removeDeadSymbols_run hcoherent
  refine ⟨change, s', hrun, hmodule ▸ Module.collected_withoutDead h, hchange, ?_, ?_⟩
  · obtain ⟨t, hsettle, hsame, hsettled⟩ := settle_spec hkept
    exact ⟨t, hsettle, hsame, hsame ▸ hsettled⟩
  · intro t ht hcoherent'
    obtain ⟨change', t', hrun', hmodule', hchange', -⟩ := removeDeadSymbols_run hcoherent'
    have hsame : t'.module = t.module := by
      rw [hmodule', ht, hmodule, Module.withoutDead_withoutDead h]
    obtain rfl := hchange'.2 hsame
    exact ⟨t', hrun', hsame.trans ht⟩

/-- A module with a root that refers to a name without a symbol, which owns a variable all the
same; two functions that keep nothing alive but each other; and a variable whose owner nothing
leads to. -/
def tangledModule : Module where
  name := "m"
  functions :=
    [⟨"main", .externalLinkage, some [.call "helper" none, .call "absent" none, .ret], false⟩,
      ⟨"left", .internalLinkage, some [.call "right" none, .ret], false⟩,
      ⟨"right", .linkOnceOdr, some [.call "left" none, .ret], false⟩,
      ⟨"helper", .internalLinkage, some [.ret], false⟩,
      ⟨"puts", .externalLinkage, none, false⟩]
  globals :=
    [⟨{ name := "tally", value := .counters 1, linkage := .privateLinkage }, some "helper"⟩,
      ⟨{ name := "note", value := .bytes [], linkage := .privateLinkage }, some "absent"⟩,
      ⟨{ name := "stray", value := .address "left", sectionName := some "s" }, some "gone"⟩,
      ⟨{ name := "table", value := .address "nowhere", linkage := .privateLinkage,
          sectionName := some "s" }, none⟩,
      ⟨{ name := "scratch", value := .bytes [], linkage := .privateLinkage }, none⟩]

/-- What is left of it. -/
theorem removeDeadSymbols_tangledModule :
    tangledModule.Unambiguous ∧ Analyses.Coherent tangledModule {} ∧
    ∃ change s', removeDeadSymbols { module := tangledModule } = .ok change s' ∧
      tangledModule.Collected s'.module ∧
      s'.module.functionNames = ["main", "helper", "puts"] ∧
      s'.module.globalNames = ["tally", "note", "table"] := by
  have hnames : tangledModule.Unambiguous := ⟨by decide, by decide, by decide⟩
  have hcoherent : Analyses.Coherent tangledModule {} := .void _
  obtain ⟨change, s', hrun, hcollected, -⟩ :=
    removeDeadSymbols_collects (s := { module := tangledModule }) hnames hcoherent
  obtain ⟨_, t, hrun', hmodule, -⟩ :=
    removeDeadSymbols_run (s := { module := tangledModule }) hcoherent
  obtain ⟨-, rfl⟩ := EStateM.Result.ok.inj (hrun'.symm.trans hrun)
  refine ⟨hnames, hcoherent, change, t, hrun, hcollected, ?_, ?_⟩
  · rw [hmodule]
    decide +kernel
  · rw [hmodule]
    decide +kernel

end PassAction

end SourceCoverage
