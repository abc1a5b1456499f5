import SourceCoverage.Proofs.Module.Construction

/-!
# Deletion and History

Deleting what is dead takes a function out of the history together with everything that
instrumentation made for it: counter arrays and profile data records are alive exactly as long as
the function that they belong to, since nothing else leads to them. Stripping declarations leaves
no trace, because nothing was ever done to a function that is declared only.

## Main results

* `Module.Follows.alive_owner`: what a function owns is not alive without it.
* `Module.Follows.withoutDead`, `Module.Follows.stripDeadPrototypes`: deletion in the history.
-/

namespace SourceCoverage

/-- The history of the functions that a module still defines. -/
def History.restrict (history : History) (m : Module) : History :=
  fun name => if m.Defines name then history name else .empty

namespace Module.Follows

variable {m : Module} {history : History}

/-- No root is owned. -/
theorem not_mem_roots (h : m.Follows history) {symbol : OwnSymbol} {owner : String}
    (howner : symbol.owner = some owner) : symbol.name ∉ m.roots := by
  have hcases : symbol = .counters owner ∨ symbol = .profileData owner := by
    cases symbol with
    | counters function => exact .inl (congrArg _ (Option.some.inj howner))
    | profileData function => exact .inr (congrArg _ (Option.some.inj howner))
    | _ => cases howner
  intro hroot
  rcases List.mem_append.1 hroot with hfunction | hglobal
  · obtain ⟨f, hf, hname⟩ := List.mem_map.1 hfunction
    refine h.not_mem_functionNames symbol ?_ ?_
      (List.mem_map.2 ⟨f, (List.mem_filter.1 hf).1, hname⟩)
    · rintro rfl
      cases howner
    · rintro rfl
      cases howner
  · obtain ⟨g, hg, hname⟩ := List.mem_map.1 hglobal
    obtain ⟨hg, hroot⟩ := List.mem_filter.1 hg
    rw [Bool.and_eq_true] at hroot
    have hdescribes := h.describes hg symbol hname
    rw [hdescribes.owner_eq, howner] at hroot
    cases hroot.1

/-- **What a function owns is not alive without the function.** -/
theorem alive_owner (h : m.Follows history) {symbol : OwnSymbol} {owner : String}
    (howner : symbol.owner = some owner) (halive : m.Alive symbol.name) : m.Alive owner := by
  have hall : m.Alive symbol.name ∧ ∀ (symbol' : OwnSymbol) (owner' : String),
      symbol'.owner = some owner' → symbol.name = symbol'.name → m.Alive owner' := by
    refine halive.induction (P := fun name => m.Alive name ∧ ∀ (symbol' : OwnSymbol)
      (owner' : String), symbol'.owner = some owner' → name = symbol'.name → m.Alive owner') ?_ ?_
    · intro root hroot
      refine ⟨.root hroot, fun symbol' owner' howner' hname => ?_⟩
      exact absurd (hname ▸ hroot) (h.not_mem_roots howner')
    · rintro source target ⟨hsource, hown⟩ hneeds
      refine ⟨hsource.needs hneeds, fun symbol' owner' howner' hname => ?_⟩
      cases hneeds with
      | @body f _ hf hmem =>
          -- Of what is owned, a body refers to the counter array of its own function only.
          rcases h.mem_references hf hmem with ⟨-, rfl | rfl⟩ | ⟨-, rfl⟩ | ⟨-, hunreserved⟩
          · obtain rfl := OwnSymbol.name_inj (a := .incrementIntrinsic).1 hname
            cases howner'
          · obtain rfl := OwnSymbol.name_inj (a := .nameVariable f.name).1 hname
            cases howner'
          · obtain rfl := OwnSymbol.name_inj (a := .counters f.name).1 hname
            exact Option.some.inj howner' ▸ hsource
          · exact absurd hname (OwnSymbol.ne_name_of_unreserved hunreserved symbol')
      | @value g _ hg hmem =>
          obtain ⟨symbol'', hdescribes⟩ := h.global g hg
          rcases hdescribes.references hmem with ⟨own, rfl, rfl⟩ | ⟨rfl, rfl⟩
          · obtain rfl := OwnSymbol.name_inj (a := .counters own).1 hname
            exact Option.some.inj howner' ▸ hown (.profileData own) own rfl hdescribes.name_eq
          · obtain rfl := OwnSymbol.name_inj (a := .profileRuntime).1 hname
            cases howner'
      | @owned g _ hg hgowner =>
          have hdescribes := h.describes hg symbol' hname
          rw [hdescribes.owner_eq, howner'] at hgowner
          exact Option.some.inj hgowner ▸ hsource
  exact hall.2 symbol owner howner rfl

/-- A function that is alive stays defined. -/
theorem defines_withoutDead (h : m.Follows history) {name : String} :
    m.withoutDead.Defines name ↔ m.Defines name ∧ m.Alive name := by
  constructor
  · rintro ⟨f, hf, rfl, hbody⟩
    obtain ⟨hf, halive⟩ := (mem_functions_withoutDead h.unambiguous).1 hf
    exact ⟨⟨f, hf, rfl, hbody⟩, halive⟩
  · rintro ⟨⟨f, hf, rfl, hbody⟩, halive⟩
    exact ⟨f, (mem_functions_withoutDead h.unambiguous).2 ⟨hf, halive⟩, rfl, hbody⟩

/-- **Deleting the dead symbols** leaves the history of the functions that are still defined. -/
theorem withoutDead (h : m.Follows history) :
    m.withoutDead.Follows (history.restrict m.withoutDead) where
  functionNames := (h.unambiguous.restrict _).functions
  globalNames := (h.unambiguous.restrict _).globals
  function := fun f hf => by
    have hf' := ((mem_functions_withoutDead h.unambiguous).1 hf).1
    cases h.function f hf' with
    | declaration hunreserved => exact .declaration hunreserved
    | @definition name linkage hunreserved hvalid =>
        have hdefines : m.withoutDead.Defines name := ⟨_, hf, rfl, rfl⟩
        exact (Function.Follows.definition hunreserved hvalid).congr (if_pos hdefines)
    | increment => exact .increment
    | runtime => exact .runtime
  undefined := fun name hundefined => if_neg hundefined
  global := fun g hg => by
    obtain ⟨hg, halive⟩ := (mem_globals_withoutDead h.unambiguous).1 hg
    obtain ⟨symbol, hdescribes⟩ := h.global g hg
    refine ⟨symbol, hdescribes.congr fun owner howner => ?_⟩
    have hlowered := hdescribes.lowered_ne_nil howner
    have hne : history owner ≠ .empty := Shape.ne_empty_iff.2 (.inr (.inl hlowered))
    obtain ⟨f, hf, hname, hbody⟩ := h.exists_definition hne
    have hdefines : m.withoutDead.Defines owner := h.defines_withoutDead.2
      ⟨⟨f, hf, hname, by rw [hbody]; rfl⟩, h.alive_owner howner (hdescribes.name_eq ▸ halive)⟩
    rw [History.restrict, if_pos hdefines]
  resolved := h.resolved.withoutDead h.unambiguous

/-- Stripping deletes no definition. -/
theorem defines_stripDeadPrototypes {name : String} :
    m.stripDeadPrototypes.Defines name ↔ m.Defines name := by
  constructor
  · rintro ⟨f, hf, hname, hbody⟩
    exact ⟨f, (mem_functions_stripDeadPrototypes.1 hf).1, hname, hbody⟩
  · rintro ⟨f, hf, hname, hbody⟩
    exact ⟨f, mem_functions_stripDeadPrototypes.2 ⟨hf, .inl hbody⟩, hname, hbody⟩

/-- **Stripping declarations** leaves no trace in the history. -/
theorem stripDeadPrototypes (h : m.Follows history) : m.stripDeadPrototypes.Follows history where
  functionNames := h.unambiguous.stripDeadPrototypes.functions
  globalNames := h.globalNames
  function := fun f hf => h.function f (mem_functions_stripDeadPrototypes.1 hf).1
  undefined := fun name hundefined =>
    h.undefined name fun hdefines => hundefined (defines_stripDeadPrototypes.2 hdefines)
  global := h.global
  resolved := h.resolved.stripDeadPrototypes

end Module.Follows

end SourceCoverage
