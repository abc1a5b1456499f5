import SourceCoverage.Proofs.Interleaving
import SourceCoverage.Proofs.Lifetime
import SourceCoverage.Proofs.Pipeline.Pruning

/-!
# What Is Left of Coverage Data

After a run with coverage a module has no increments, so that a run without coverage can do nothing
to it but delete. What a sequence of such runs does is thus said by the *deletions* that their texts
ask for, in order: of dead symbols, and of declarations that nothing refers to.

The header and the records are anchored and survive all of them. The reference to the runtime is
not: the linker may discard it, it stands in no section, and nothing refers to it. The first
deletion of dead symbols takes it away, and with it the only reference to the entry point of the
runtime, so that the next deletion of declarations takes that away as well.

## Main results

* `work_plain`: runs without coverage as deletions.
* `Module.Hooked.delete`, `Module.Hooked.deleteAll`: what deletions do to the reference to the
  runtime.
* `Action.retains_of_runs`: what is left after runs without coverage.
-/

namespace SourceCoverage

/-! ### Runs without coverage -/

/-- The deletions that the text of a pipeline asks for, in order. -/
def deletionsOf (text : String) : List Deletion :=
  match Pipeline.parse text with
  | .ok pipeline => pipeline.passes.flatMap (·.deletions)
  | .error _ => []

/-- Runs without coverage, by their texts. -/
def plainRuns (compress : Bytes → Bytes) (texts : List String) : List Stage :=
  texts.map fun text => .run compress ⟨text, none⟩

/-- **Runs without coverage only delete** where there are no increments, if they succeed. -/
theorem work_plain {compress : Bytes → Bytes} {texts : List String} {s : Session}
    (h : s.module.increments = []) (hruns : SucceedEach (plainRuns compress texts) s) :
    (work (plainRuns compress texts) s).module
      = s.module.deleteAll (texts.flatMap deletionsOf) := by
  induction texts generalizing s with
  | nil => rfl
  | cons text texts ih =>
      obtain ⟨⟨report, s₁, hrun⟩, hrest⟩ := hruns
      obtain ⟨pipeline, hparse, heffect⟩ := Action.effectOf_of_runWith_plain hrun
      have hperform : Stage.perform (.run compress ⟨text, none⟩) s = s₁ :=
        Stage.perform_run_of_ok hrun
      have hdeletions : deletionsOf text = pipeline.passes.flatMap (·.deletions) := by
        rw [deletionsOf, hparse]
      have hmodule := effectOf_eq_deletions h heffect
      rw [hperform] at hrest
      have hwork : work (plainRuns compress (text :: texts)) s
          = work (plainRuns compress texts) s₁ := by
        rw [← hperform]
        rfl
      have hnone : s₁.module.increments = [] := hmodule ▸ Module.increments_deleteAll h _
      rw [hwork, ih hnone hrest, hmodule, List.flatMap_cons, Module.deleteAll_append, hdeletions]

namespace Module

variable {m : Module}

/-! ### Anchored coverage data -/

/-- **Deletions leave anchored coverage data as it is.** -/
theorem global?_deleteAll {name : String} {g : Global} (hnone : m.increments = [])
    (hdata : Symbol.isCoverageData name) (hg : m.global? name = some g) (hanchored : g.Anchored)
    (deletions : List Deletion) : (m.deleteAll deletions).global? name = some g := by
  have hname : g.name = name := by
    have hfound := List.find?_some hg
    exact of_decide_eq_true hfound
  have hpinned : m.Pinned name := by
    refine ⟨hdata, ⟨g, List.mem_of_find?_eq_some hg, hname, hanchored⟩, ?_⟩
    rw [nameVariables, hnone]
    exact List.not_mem_nil
  clear hnone
  induction deletions generalizing m with
  | nil => exact hg
  | cons deletion deletions ih =>
      obtain ⟨hsame, hpinned'⟩ := hpinned.step (m.step_delete deletion)
      exact ih ((global?_of_filter hsame).trans hg) hpinned'

/-! ### The reference to the runtime -/

/-- Whether the reference to the runtime stands by itself: there is no other variable of its name
and no function, it has no owner and nothing refers to it; the entry point of the runtime is only
declared, and nothing else refers to that. -/
structure Hooked (m : Module) : Prop where
  user : ∀ g ∈ m.globals, g.name = Symbol.profileRuntimeUser → g = ⟨runtimeUserVariable, none⟩
  unnamed : Symbol.profileRuntimeUser ∉ m.functionNames
  unused : Symbol.profileRuntimeUser ∉ m.references
  declared : ∀ f ∈ m.functions, f.name = Symbol.profileRuntime → f.body = none
  uncalled : ∀ f ∈ m.functions, Symbol.profileRuntime ∉ f.references
  alone : ∀ g ∈ m.globals, Symbol.profileRuntime ∈ g.definition.value.references →
    g.name = Symbol.profileRuntimeUser

/-- The variables by which a module refers to the runtime. -/
def runtimeUsers (m : Module) : List Global :=
  m.globals.filter (·.name = Symbol.profileRuntimeUser)

/-- The functions by the name of the entry point of the runtime. -/
def runtimeEntries (m : Module) : List Function :=
  m.functions.filter (·.name = Symbol.profileRuntime)

namespace Hooked

/-- A part of a module in which the reference stands by itself is such a module. -/
theorem part {m' : Module} (h : m.Hooked) (hfunctions : m'.functions ⊆ m.functions)
    (hglobals : m'.globals ⊆ m.globals) : m'.Hooked where
  user := fun g hg => h.user g (hglobals hg)
  unnamed := fun hmem => h.unnamed (List.map_subset _ hfunctions hmem)
  unused := fun hmem => by
    refine h.unused (mem_references_iff.2 ?_)
    rcases mem_references_iff.1 hmem with ⟨f, hf, hname⟩ | ⟨g, hg, hname⟩
    · exact .inl ⟨f, hfunctions hf, hname⟩
    · exact .inr ⟨g, hglobals hg, hname⟩
  declared := fun f hf => h.declared f (hfunctions hf)
  uncalled := fun f hf => h.uncalled f (hfunctions hf)
  alone := fun g hg => h.alone g (hglobals hg)

/-- The reference is no root. -/
theorem user_not_mem_roots (h : m.Hooked) : Symbol.profileRuntimeUser ∉ m.roots := by
  intro hroot
  rcases List.mem_append.1 hroot with hfunction | hglobal
  · obtain ⟨f, hf, hname⟩ := List.mem_map.1 hfunction
    exact h.unnamed (hname ▸ List.mem_map_of_mem (List.mem_filter.1 hf).1)
  · obtain ⟨g, hg, hname⟩ := List.mem_map.1 hglobal
    obtain ⟨hg, hkept⟩ := List.mem_filter.1 hg
    obtain rfl := h.user g hg hname
    cases hkept

/-- **The reference is dead.** -/
theorem user_dead (h : m.Hooked) : Symbol.profileRuntimeUser ∉ m.liveSymbols m.referenceGraph := by
  intro hlive
  obtain hreached | ⟨root, hroot, hpath⟩ := (mem_reachFrom_iff (by simp)).1 hlive
  · cases hreached
  · rcases Relation.ReflTransGen.cases_tail hpath with heq | ⟨source, -, hedge⟩
    · exact h.user_not_mem_roots (heq ▸ hroot)
    · rcases leads_append.1 hedge with hreference | howner
      · obtain ⟨targets, hentry, htarget⟩ := leads_iff.1 hreference
        exact h.unused (mem_references_of_mem_referenceGraph hentry htarget)
      · obtain ⟨g, hg, howned, hname⟩ := leads_ownerEdges_iff.1 howner
        obtain rfl := h.user g hg hname
        cases howned

/-- The entry point is referred to exactly while the reference is there. -/
theorem mem_references_iff_users (h : m.Hooked) :
    Symbol.profileRuntime ∈ m.references ↔ m.runtimeUsers ≠ [] := by
  rw [mem_references_iff, or_iff_right fun ⟨f, hf, hname⟩ => h.uncalled f hf hname, ne_eq,
    runtimeUsers, List.filter_eq_nil_iff]
  push Not
  refine exists_congr fun g => and_congr_right fun hg => ⟨fun hname => ?_, fun hname => ?_⟩
  · exact decide_eq_true (h.alone g hg hname)
  · obtain rfl := h.user g hg (of_decide_eq_true hname)
    exact List.mem_singleton_self _

/-- **What a deletion does to the reference and to the entry point**: dead symbols are deleted with
the reference, and declarations with the entry point unless the reference is still there. -/
theorem delete (h : m.Hooked) (deletion : Deletion) : (m.delete deletion).Hooked ∧
    (m.delete deletion).runtimeUsers = (if deletion = .symbols then [] else m.runtimeUsers) ∧
    (m.delete deletion).runtimeEntries =
      if deletion = .prototypes ∧ m.runtimeUsers = [] then [] else m.runtimeEntries := by
  cases deletion with
  | symbols =>
      refine ⟨h.part List.filter_sublist.subset List.filter_sublist.subset, ?_, ?_⟩
      · rw [if_pos rfl, runtimeUsers, List.filter_eq_nil_iff]
        intro g hg hname
        have hlive := of_decide_eq_true (List.mem_filter.1 hg).2
        exact h.user_dead (of_decide_eq_true hname ▸ hlive)
      · rw [if_neg nofun, runtimeEntries, runtimeEntries]
        have hfunctions : (m.delete .symbols).functions
            = m.functions.filter (·.name ∈ m.liveSymbols m.referenceGraph) := rfl
        rw [hfunctions, List.filter_filter]
        refine List.filter_congr fun f hf => ?_
        by_cases hname : f.name = Symbol.profileRuntime
        · have hroot : f.name ∈ m.roots := by
            refine List.mem_append_left _ (List.mem_map_of_mem (List.mem_filter.2 ⟨hf, ?_⟩))
            rw [Function.isDeclaration, h.declared f hf hname]
            rfl
          simp [hname, hname ▸ roots_subset_liveSymbols m.referenceGraph hroot]
        · simp [hname]
  | prototypes =>
      refine ⟨h.part List.filter_sublist.subset (List.Subset.refl _), rfl, ?_⟩
      rw [runtimeEntries, runtimeEntries]
      have hfunctions : (m.delete .prototypes).functions
          = m.functions.filter fun f => !f.isDeclaration || f.name ∈ m.references := rfl
      rw [hfunctions, List.filter_filter]
      by_cases husers : m.runtimeUsers = []
      · have hunreferred : Symbol.profileRuntime ∉ m.references := fun hmem =>
          h.mem_references_iff_users.1 hmem husers
        rw [if_pos ⟨rfl, husers⟩, List.filter_eq_nil_iff]
        intro f hf hkept
        obtain ⟨hname, hkept⟩ := Bool.and_eq_true_iff.1 hkept
        have hname := of_decide_eq_true hname
        rw [Function.isDeclaration, h.declared f hf hname, hname, decide_eq_false hunreferred]
          at hkept
        cases hkept
      · have hreferred := h.mem_references_iff_users.2 husers
        rw [if_neg fun hboth => husers hboth.2]
        refine List.filter_congr fun f _ => ?_
        by_cases hname : f.name = Symbol.profileRuntime
        · simp [hname, hreferred]
        · simp [hname]

/-- **The reference after deletions** is there as it was, unless dead symbols were deleted. -/
theorem runtimeUsers_deleteAll (h : m.Hooked) (deletions : List Deletion) :
    (m.deleteAll deletions).runtimeUsers
      = if .symbols ∈ deletions then [] else m.runtimeUsers := by
  induction deletions generalizing m with
  | nil => rfl
  | cons deletion deletions ih =>
      obtain ⟨hhooked, husers, -⟩ := h.delete deletion
      have hcons : m.deleteAll (deletion :: deletions) = (m.delete deletion).deleteAll deletions :=
        rfl
      rw [hcons, ih hhooked, husers]
      cases deletion <;> simp

/-- **The entry point after deletions** is there as it was, unless declarations were deleted when
the reference to it was no longer there. -/
theorem runtimeEntries_deleteAll (h : m.Hooked) (deletions : List Deletion) :
    (m.deleteAll deletions).runtimeEntries =
      if m.runtimeUsers = [] ∧ .prototypes ∈ deletions ∨
        [.symbols, .prototypes].Sublist deletions then [] else m.runtimeEntries := by
  induction deletions generalizing m with
  | nil => simp [deleteAll]
  | cons deletion deletions ih =>
      obtain ⟨hhooked, husers, hentries⟩ := h.delete deletion
      have hcons : m.deleteAll (deletion :: deletions) = (m.delete deletion).deleteAll deletions :=
        rfl
      rw [hcons, ih hhooked, husers, hentries]
      cases deletion with
      | symbols =>
          have hpair : [Deletion.symbols, .prototypes].Sublist (.symbols :: deletions) ↔
              .prototypes ∈ deletions :=
            List.cons_sublist_cons.trans List.singleton_sublist
          by_cases hmem : .prototypes ∈ deletions
          · simp [hpair, hmem]
          · have hnot : ¬[Deletion.symbols, .prototypes].Sublist deletions := fun hsublist =>
              hmem (hsublist.subset (by simp))
            simp [hpair, hmem, hnot]
      | prototypes =>
          have hpair : [Deletion.symbols, .prototypes].Sublist (.prototypes :: deletions) ↔
              [Deletion.symbols, .prototypes].Sublist deletions := by
            rw [List.sublist_cons_iff]
            simp
          by_cases hnone : m.runtimeUsers = []
          · simp [hnone]
          · simp [hpair, hnone]

end Hooked

/-- Deletions of declarations alone leave global variables as they are, and the entry point, if some
global variable refers to it. -/
theorem deleteAll_of_not_mem {deletions : List Deletion} (h : .symbols ∉ deletions)
    (hreferred : ∃ g ∈ m.globals, Symbol.profileRuntime ∈ g.definition.value.references) :
    (m.deleteAll deletions).globals = m.globals ∧
      (m.deleteAll deletions).runtimeEntries = m.runtimeEntries := by
  induction deletions generalizing m with
  | nil => exact ⟨rfl, rfl⟩
  | cons deletion deletions ih =>
      cases deletion with
      | symbols => exact absurd (List.mem_cons_self ..) h
      | prototypes =>
          obtain ⟨hglobals, hentries⟩ := ih (m := m.stripDeadPrototypes)
            (fun hmem => h (List.mem_cons_of_mem _ hmem)) hreferred
          refine ⟨hglobals, hentries.trans ?_⟩
          have hmem : Symbol.profileRuntime ∈ m.references := mem_references_iff.2 (.inr hreferred)
          rw [runtimeEntries, stripDeadPrototypes, List.filter_filter, runtimeEntries]
          refine List.filter_congr fun f _ => ?_
          by_cases hname : f.name = Symbol.profileRuntime
          · simp [hname, hmem]
          · simp [hname]

/-- In a module that follows a history, the reference to the runtime stands by itself. -/
theorem Follows.hooked {history : History} (h : m.Follows history) : m.Hooked where
  user := fun g hg hname => h.describes hg .profileRuntimeUser hname
  unnamed := h.not_mem_functionNames .profileRuntimeUser nofun nofun
  unused := fun hmem => by
    rcases mem_references_iff.1 hmem with ⟨f, hf, hname⟩ | ⟨g, hg, hname⟩
    · rcases h.mem_references hf hname with ⟨-, heq | heq⟩ | ⟨-, heq⟩ | ⟨-, hunreserved⟩
      · cases (OwnSymbol.name_inj (a := .profileRuntimeUser) (b := .incrementIntrinsic)).1 heq
      · cases (OwnSymbol.name_inj (a := .profileRuntimeUser) (b := .nameVariable f.name)).1 heq
      · cases (OwnSymbol.name_inj (a := .profileRuntimeUser) (b := .counters f.name)).1 heq
      · exact OwnSymbol.not_unreserved_name .profileRuntimeUser hunreserved
    · obtain ⟨symbol, hdescribes⟩ := h.global g hg
      rcases hdescribes.references hname with ⟨function, -, heq⟩ | ⟨-, heq⟩
      · cases (OwnSymbol.name_inj (a := .profileRuntimeUser) (b := .counters function)).1 heq
      · cases (OwnSymbol.name_inj (a := .profileRuntimeUser) (b := .profileRuntime)).1 heq
  declared := fun f hf hname => by
    cases hbody : f.body with
    | none => rfl
    | some body =>
        obtain ⟨-, hunreserved, -⟩ := h.body_eq hf hbody
        exact absurd hname (OwnSymbol.ne_name_of_unreserved hunreserved .profileRuntime)
  uncalled := fun f hf hname => by
    rcases h.mem_references hf hname with ⟨-, heq | heq⟩ | ⟨-, heq⟩ | ⟨-, hunreserved⟩
    · cases (OwnSymbol.name_inj (a := .profileRuntime) (b := .incrementIntrinsic)).1 heq
    · cases (OwnSymbol.name_inj (a := .profileRuntime) (b := .nameVariable f.name)).1 heq
    · cases (OwnSymbol.name_inj (a := .profileRuntime) (b := .counters f.name)).1 heq
    · exact OwnSymbol.not_unreserved_name .profileRuntime hunreserved
  alone := fun g hg hname => by
    obtain ⟨symbol, hdescribes⟩ := h.global g hg
    rcases hdescribes.references hname with ⟨function, -, heq⟩ | ⟨rfl, -⟩
    · cases (OwnSymbol.name_inj (a := .profileRuntime) (b := .counters function)).1 heq
    · exact hdescribes.name_eq

end Module

/-! ### What is emitted -/

namespace EmissionSummary.Made

variable {options : CoverageOptions} {encoded : EncodedFilenames} {m m' : Module}
  {summary : EmissionSummary}

/-- The header and the records are anchored, unless they were put in the place of a variable that
has an owner. -/
theorem anchored (h : summary.Made options encoded m m') {name : String}
    (hname : name = Symbol.coverageMapping ∨
      ∃ function ∈ m.counted, name = Symbol.coverageRecord function) :
    ∃ g, m'.global? name = some g ∧ (g.owner = none → g.Anchored) := by
  obtain ⟨v, hv, rfl, hsection, hne⟩ : ∃ v ∈ summary.variables options, v.name = name ∧
      v.sectionName.isSome ∧ name ≠ Symbol.profileRuntimeUser := by
    rw [h.variables_eq]
    rcases hname with rfl | ⟨function, hfunction, rfl⟩
    · exact ⟨_, .head _, rfl, rfl, by decide⟩
    · refine ⟨_, .tail _ (List.mem_map_of_mem hfunction), rfl, rfl, fun heq => ?_⟩
      cases (OwnSymbol.name_inj (a := .coverageRecord function) (b := .profileRuntimeUser)).1 heq
  obtain ⟨g, hg, rfl⟩ := Option.map_eq_some_iff.1 (h.definition?_eq hv hne)
  exact ⟨g, hg, fun howner => ⟨howner, .inr hsection⟩⟩

/-- The entry point of the runtime is there, and the reference to it. -/
theorem hook (h : summary.Made options encoded m m') : Symbol.profileRuntime ∈ m'.functionNames ∧
    ∃ g, m'.global? Symbol.profileRuntimeUser = some g ∧ g.definition = runtimeUserVariable := by
  have hdefined := Module.definition?_putVariable_self
    ((m.putAll (summary.variables options)).withRuntime) runtimeUserVariable
  rw [← h.module] at hdefined
  refine ⟨?_, Option.map_eq_some_iff.1 hdefined⟩
  rw [Module.functionNames, h.functions_eq]
  exact Module.mem_functionNames_withRuntime.2 (.inr rfl)

/-- An emission makes no increments. -/
theorem increments_eq (h : summary.Made options encoded m m') : m'.increments = m.increments := by
  rw [Module.increments, h.functions_eq, Module.withRuntime]
  split
  · rfl
  · rw [List.flatMap_append, Module.increments]
    exact List.append_nil _

end EmissionSummary.Made

/-! ### What is left -/

/-- What is left of coverage data after deletions. -/
structure Retains (deletions : List Deletion) (m m' : Module) : Prop where
  /-- The header and the records of the functions that have a counter array are there, and anchored
  if they have no owner. -/
  emitted : ∀ name, (name = Symbol.coverageMapping ∨
    ∃ function ∈ m.counted, name = Symbol.coverageRecord function) →
      ∃ g, m.global? name = some g ∧ (g.owner = none → g.Anchored)
  /-- The header and the records stay as they are, if they are anchored. -/
  data : ∀ name g, (name = Symbol.coverageMapping ∨
    ∃ function, name = Symbol.coverageRecord function) →
      m.global? name = some g → g.Anchored → m'.global? name = some g
  /-- The reference to the runtime is there, and the entry point. -/
  hook : m.runtimeUsers ≠ [] ∧ m.runtimeEntries ≠ []
  /-- Both stay as they are, unless dead symbols are deleted. -/
  kept : .symbols ∉ deletions →
    m'.runtimeUsers = m.runtimeUsers ∧ m'.runtimeEntries = m.runtimeEntries
  /-- If dead symbols are deleted, the reference is lost if it stands by itself; and so is the entry
  point if declarations are deleted afterwards. -/
  lost : m.Hooked →
    m'.runtimeUsers = (if .symbols ∈ deletions then [] else m.runtimeUsers) ∧
    m'.runtimeEntries =
      if [.symbols, .prototypes].Sublist deletions then [] else m.runtimeEntries

namespace Action

variable {s s₁ : Session} {passes : String} {options : CoverageOptions} {report : RunReport}
  {texts : List String} {compress later : Bytes → Bytes}

/-- **What is left of coverage data** of a run with coverage that succeeds, after further runs
without coverage that succeed: the header and the records, and the reference to the runtime until
dead symbols are deleted. The run may compress its filenames table in any way. -/
theorem retains_of_runs (hrun : runWith compress .full ⟨passes, some options⟩ s = .ok report s₁)
    (hlater : SucceedEach (plainRuns later texts) s₁) :
    Retains (texts.flatMap deletionsOf) s₁.module (work (plainRuns later texts) s₁).module := by
  obtain ⟨pipeline, m, summary, -, -, hnone, -, hmade⟩ := made_of_runWith hrun
  have hincrements : s₁.module.increments = [] := hmade.increments_eq.trans hnone
  obtain ⟨hentry, user, huser, hdefinition⟩ := hmade.hook
  have huser' : user ∈ s₁.module.runtimeUsers := by
    have hfound := List.find?_some huser
    exact List.mem_filter.2 ⟨List.mem_of_find?_eq_some huser, hfound⟩
  rw [work_plain hincrements hlater]
  refine ⟨fun name hname => ?_, fun name g hname hg hanchored => ?_, ⟨?_, ?_⟩, fun hnot => ?_,
    fun hhooked => ?_⟩
  · refine hmade.anchored (hname.imp_right ?_)
    rintro ⟨function, hfunction, rfl⟩
    obtain ⟨hcounters, hne⟩ := Module.mem_counted_iff.1 hfunction
    exact ⟨function, Module.mem_counted_iff.2 ⟨hmade.counters_mem_iff.1 hcounters, hne⟩, rfl⟩
  · have hdata : Symbol.isCoverageData name :=
      Symbol.isCoverageData_iff.2 (hname.imp_right .inl)
    exact Module.global?_deleteAll hincrements hdata hg hanchored _
  · exact List.ne_nil_of_mem huser'
  · obtain ⟨f, hf, hname⟩ := List.mem_map.1 hentry
    exact List.ne_nil_of_mem (List.mem_filter.2 ⟨hf, decide_eq_true hname⟩)
  · have hreferred :
        ∃ g ∈ s₁.module.globals, Symbol.profileRuntime ∈ g.definition.value.references := by
      refine ⟨user, List.mem_of_find?_eq_some huser, ?_⟩
      rw [hdefinition]
      exact List.mem_singleton_self _
    obtain ⟨hglobals, hentries⟩ := Module.deleteAll_of_not_mem hnot hreferred
    exact ⟨by rw [Module.runtimeUsers, hglobals, Module.runtimeUsers], hentries⟩
  · refine ⟨hhooked.runtimeUsers_deleteAll _, ?_⟩
    rw [hhooked.runtimeEntries_deleteAll]
    refine if_congr (or_iff_right fun hnil => ?_) rfl rfl
    exact List.ne_nil_of_mem huser' hnil.1

/-- What is left of a program of one function, after a run that deletes dead symbols and unused
declarations: the reference to the runtime and its entry point are gone, be the filenames table
compressed or not. -/
theorem retains_of_runs_hookedProgram : (∀ step ∈ singleProgram, step.Unreserved) ∧
    ∀ compressing, ∃ report s₁,
      runWith Zlib.compress .full ⟨"no-op-module", some ⟨"a.c", true, compressing, .elf⟩⟩
        (build singleProgram (.start "m")) = .ok report s₁ ∧
      let later := plainRuns Zlib.compress ["globaldce,strip-dead-prototypes"]
      SucceedEach later s₁ ∧ s₁.module.Hooked ∧
      Retains (["globaldce,strip-dead-prototypes"].flatMap deletionsOf) s₁.module
        (work later s₁).module ∧
      (work later s₁).module.runtimeUsers = [] ∧ (work later s₁).module.runtimeEntries = [] := by
  have hsteps : ∀ step ∈ singleProgram, step.Unreserved := by decide
  refine ⟨hsteps, fun compressing => ?_⟩
  let options : CoverageOptions := ⟨"a.c", true, compressing, .elf⟩
  have hfits : options.Fits Zlib.compress := CoverageOptions.fits_short true compressing .elf
  have hfirst : Pipeline.parse "no-op-module" = .ok ⟨[.noOp]⟩ := by cbv
  have hlater : Pipeline.parse "globaldce,strip-dead-prototypes"
      = .ok ⟨[.removeDeadSymbols, .stripDeadPrototypes]⟩ := by cbv
  obtain ⟨_, hfollows⟩ := follows_build (s := .start "m") (.empty "m") hsteps
  obtain ⟨report, s₁, _, _, _, hrun, -, -, hfollows₁⟩ :=
    exists_runWith_coverage hfollows hfirst hfits
  obtain ⟨_, _, heffect, -⟩ := hfollows₁.effectOf [.removeDeadSymbols, .stripDeadPrototypes]
  obtain ⟨report₂, s₂, hrun₂, -⟩ :=
    runWith_plain_spec .full (pipeline_plain_eq_ok_iff.2 hlater) heffect
  have hsucceed : SucceedEach (plainRuns Zlib.compress ["globaldce,strip-dead-prototypes"]) s₁ :=
    ⟨⟨report₂, s₂, hrun₂⟩, trivial⟩
  have hdeletions : ["globaldce,strip-dead-prototypes"].flatMap deletionsOf
      = [.symbols, .prototypes] := by
    rw [List.flatMap_singleton, deletionsOf, hlater]
    rfl
  have hretains := retains_of_runs hrun hsucceed
  obtain ⟨husers, hentries⟩ := hretains.lost hfollows₁.hooked
  refine ⟨report, s₁, hrun, hsucceed, hfollows₁.hooked, hretains, ?_, ?_⟩
  · rw [husers, hdeletions]
    rfl
  · rw [hentries, hdeletions]
    rfl

end Action

end SourceCoverage
