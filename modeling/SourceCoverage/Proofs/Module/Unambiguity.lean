import SourceCoverage.Proofs.Module.Edits

/-!
# Names That Coincide

Symbols are looked up by name, and the edits of a module look before they give one; but not all of
them look everywhere. Global variables never share a name, and functions do so only where an
intrinsic is declared under the name of a function that is none. That a function and a global
variable share a name is seen to by declarations and by definitions of variables, but not by
definitions of functions, by declarations of intrinsics, nor where a variable is given an owner,
which lowering does.

## Main results

* `Edit.distinct`, `Module.PassStep.distinct`: what edits and passes always keep.
* `Edit.unambiguous_iff`: which edits keep the names of a module unambiguous.
* `Module.PassStep.unambiguous`: when passes do.
-/

namespace SourceCoverage

/-! ### What is always distinct -/

namespace Module

variable {m m' : Module}

/-- The names of functions that do not have the head of intrinsics, in order. -/
def plainNames (m : Module) : List String :=
  m.functionNames.filter fun name => (Symbol.after? Symbol.intrinsicHead name).isNone

/-- Whether the names of global variables are distinct, and those of functions that cannot be
intrinsics. -/
structure Distinct (m : Module) : Prop where
  globals : m.globalNames.Nodup
  functions : m.plainNames.Nodup

/-- A step introduces no function. -/
theorem PassStep.functionNames_sublist (h : PassStep m m') :
    m'.functionNames.Sublist m.functionNames := by
  cases h with
  | profile function _ =>
      rw [functionNames, Module.profile, functions_putOwned, functions_putOwned]
      exact List.Sublist.refl _
  | @fold profiled lowering _ _ =>
      have hnames : (m.lowerBodies lowering profiled).functionNames = m.functionNames := by
        rw [functionNames, lowerBodies, List.map_map, functionNames]
        rfl
      rw [functionNames, functions_foldNames, ← functionNames, hnames]
  | restrict _ => exact List.filter_sublist.map _
  | strip => exact List.filter_sublist.map _

/-- The names of global variables stay distinct in a step. -/
theorem PassStep.nodup_globalNames (h : PassStep m m') (hm : m.globalNames.Nodup) :
    m'.globalNames.Nodup := by
  cases h with
  | profile function _ => exact nodup_globalNames_profile hm
  | @fold profiled lowering _ _ =>
      exact nodup_globalNames_foldNames (m := m.lowerBodies lowering profiled) hm
  | restrict _ => exact hm.sublist (List.filter_sublist.map _)
  | strip => exact hm

/-- **A step keeps names distinct.** -/
theorem PassStep.distinct (h : PassStep m m') (hm : m.Distinct) : m'.Distinct where
  globals := h.nodup_globalNames hm.globals
  functions := hm.functions.sublist (h.functionNames_sublist.filter _)

/-- One more function is a new one exactly if its name is new. -/
theorem nodup_append_singleton_iff {names : List String} {name : String} :
    (names ++ [name]).Nodup ↔ names.Nodup ∧ name ∉ names := by
  rw [← List.concat_eq_append, List.nodup_concat, and_comm]

end Module

/-- **An edit keeps names distinct.** -/
theorem Edit.distinct {m m' : Module} {e : Edit} (h : e.apply m = .ok m') (hm : m.Distinct) :
    m'.Distinct := by
  refine ⟨?_, ?_⟩
  · rcases e.globals_or_put h with hsame | ⟨v, -, -, rfl⟩ | ⟨v, owner, -, rfl⟩
    · rw [Module.globalNames, hsame]
      exact hm.globals
    · exact Module.nodup_globalNames_putVariable hm.globals
    · rw [Module.globalNames_putOwned]
      exact Module.nodup_globalNames_putVariable hm.globals
  · rcases e.signatures_or_introduces h with hsame | ⟨f, hintroduces, rfl⟩
    · rw [Module.plainNames, Module.functionNames_eq, hsame, ← Module.functionNames_eq]
      exact hm.functions
    · have hsplit : Module.plainNames { m with functions := m.functions ++ [f] } = m.plainNames
          ++ [f.name].filter fun name => (Symbol.after? Symbol.intrinsicHead name).isNone := by
        rw [Module.plainNames, Module.functionNames, List.map_append, List.filter_append]
        rfl
      rw [hsplit]
      have hplain : f.name ∉ m.functionNames → (m.plainNames ++ [f.name]).Nodup := fun hnew =>
        Module.nodup_append_singleton_iff.2
          ⟨hm.functions, fun hmem => hnew (List.mem_filter.1 hmem).1⟩
      have hsublist := List.Sublist.append (List.Sublist.refl m.plainNames)
        (List.filter_sublist (l := [f.name])
          (p := fun name => (Symbol.after? Symbol.intrinsicHead name).isNone))
      cases hintroduces with
      | addFunction hnew => exact (hplain hnew).sublist hsublist
      | declareFunction hnew _ => exact (hplain hnew).sublist hsublist
      | @declareIntrinsic name _ hhead =>
          have hnone : [name].filter (fun name =>
              (Symbol.after? Symbol.intrinsicHead name).isNone) = [] := by
            rw [List.filter_eq_nil_iff, List.forall_mem_singleton, Option.isNone_iff_eq_none]
            exact Option.isSome_iff_ne_none.1 hhead
          rw [hnone, List.append_nil]
          exact hm.functions

/-! ### Unambiguous edits -/

namespace Module

variable {m m' : Module}

/-- One more function leaves names unambiguous exactly if its name is new. -/
theorem Unambiguous.append_iff (h : m.Unambiguous) (f : Function) :
    Unambiguous { m with functions := m.functions ++ [f] } ↔
      f.name ∉ m.functionNames ∧ f.name ∉ m.globalNames := by
  have hnames : functionNames { m with functions := m.functions ++ [f] }
      = m.functionNames ++ [f.name] := List.map_append ..
  constructor
  · intro hafter
    have hnodup := hafter.functions
    rw [hnames, nodup_append_singleton_iff] at hnodup
    refine ⟨hnodup.2, hafter.disjoint f.name ?_⟩
    rw [hnames]
    exact List.mem_append_right _ (List.mem_singleton_self _)
  · rintro ⟨hfunction, hglobal⟩
    refine ⟨hnames ▸ nodup_append_singleton_iff.2 ⟨h.functions, hfunction⟩, h.globals, ?_⟩
    intro name hname
    rw [hnames] at hname
    rcases List.mem_append.1 hname with hold | hnew
    · exact h.disjoint name hold
    · exact List.mem_singleton.1 hnew ▸ hglobal

/-- A variable leaves names unambiguous exactly if its name is not that of a function. -/
theorem Unambiguous.putVariable_iff (h : m.Unambiguous) (v : Variable) :
    (m.putVariable v).Unambiguous ↔ v.name ∉ m.functionNames := by
  have hnames : (m.putVariable v).functionNames = m.functionNames := functionNames_putVariable
  constructor
  · intro hafter hmem
    exact hafter.disjoint v.name (hnames ▸ hmem) (mem_globalNames_putVariable.2 (.inr rfl))
  · intro hnew
    refine ⟨hnames ▸ h.functions, nodup_globalNames_putVariable h.globals, ?_⟩
    intro name hname hmem
    rw [hnames] at hname
    rcases mem_globalNames_putVariable.1 hmem with hold | rfl
    · exact h.disjoint name hname hold
    · exact hnew hname

/-- Names are as unambiguous as they were if they are the same. -/
theorem Unambiguous.congr (hfunctions : m'.functionNames = m.functionNames)
    (hglobals : m'.globalNames = m.globalNames) : m'.Unambiguous ↔ m.Unambiguous := by
  constructor
  · rintro ⟨hf, hg, hdisjoint⟩
    exact ⟨hfunctions ▸ hf, hglobals ▸ hg, hfunctions ▸ hglobals ▸ hdisjoint⟩
  · rintro ⟨hf, hg, hdisjoint⟩
    exact ⟨hfunctions ▸ hf, hglobals ▸ hg, hfunctions ▸ hglobals ▸ hdisjoint⟩

/-- An owned variable is like any other one in this. -/
theorem Unambiguous.putOwned_iff (h : m.Unambiguous) (v : Variable) (owner : String) :
    (m.putOwned v owner).Unambiguous ↔ v.name ∉ m.functionNames := by
  have hsame : (m.putOwned v owner).Unambiguous ↔ (m.putVariable v).Unambiguous :=
    congr rfl globalNames_putOwned
  exact hsame.trans (h.putVariable_iff v)

end Module

/-- Whether an edit gives a name that another symbol has, without a look: a function the name of a
global variable, an intrinsic the name of a global variable or of a function that is none, an owned
variable the name of a function. -/
def Edit.Clashes (m : Module) : Edit → Prop
  | addFunction name _ => name ∈ m.globalNames
  | declareIntrinsic name => (Symbol.after? Symbol.intrinsicHead name).isSome ∧
    ¬m.hasIntrinsic name ∧ (name ∈ m.functionNames ∨ name ∈ m.globalNames)
  | putOwned v _ => v.name ∈ m.functionNames
  | _ => False

/-- **An edit leaves names unambiguous exactly if it does not clash** with a symbol. -/
theorem Edit.unambiguous_iff {m m' : Module} {e : Edit} (hm : m.Unambiguous)
    (h : e.apply m = .ok m') : m'.Unambiguous ↔ ¬e.Clashes m := by
  have hsame (hnever : ¬e.Clashes m) (hsignatures : m'.signatures = m.signatures)
      (hglobals : m'.globals = m.globals) : m'.Unambiguous ↔ ¬e.Clashes m := by
    have hfunctions : m'.functionNames = m.functionNames := by
      rw [Module.functionNames_eq, hsignatures, ← Module.functionNames_eq]
    have hnames : m'.globalNames = m.globalNames := by
      rw [Module.globalNames, hglobals, Module.globalNames]
    exact iff_of_true ((Module.Unambiguous.congr hfunctions hnames).2 hm) hnever
  cases e with
  | addFunction name linkage =>
      obtain rfl := Except.ok.inj h
      by_cases hhas : m.hasFunction name
      · have hfunction := Module.hasFunction_iff.1 hhas
        rcases signatures_or_introduces h with hsignatures | ⟨f, hintroduces, -⟩
        · refine hsame (hm.disjoint name hfunction) hsignatures ?_
          rw [Module.addFunction, if_pos hhas]
        · cases hintroduces with
          | addFunction hnew => exact absurd hfunction hnew
      · rw [Module.addFunction, if_neg hhas, hm.append_iff]
        exact and_iff_right fun hmem => hhas (Module.hasFunction_iff.2 hmem)
  | declareFunction name =>
      rcases signatures_or_introduces h with hsignatures | ⟨f, hintroduces, rfl⟩
      · exact hsame id hsignatures (globals_eq h rfl)
      · cases hintroduces with
        | declareFunction hfunction hglobal =>
            exact iff_of_true ((hm.append_iff _).2 ⟨hfunction, hglobal⟩) id
  | addCall caller callee =>
      rcases signatures_or_introduces h with hsignatures | ⟨f, hintroduces, -⟩
      · exact hsame id hsignatures (globals_eq h rfl)
      · cases hintroduces
  | declareIntrinsic name =>
      obtain ⟨hhead, rfl⟩ := Module.declareIntrinsic_eq_ok_iff.1 h
      by_cases hhas : m.hasIntrinsic name
      · rw [if_pos hhas]
        exact iff_of_true hm fun hclash => hclash.2.1 hhas
      · rw [if_neg hhas, hm.append_iff, Clashes, and_iff_right hhead, and_iff_right hhas, not_or]
  | insertIncrement cursor intrinsic increment =>
      rcases signatures_or_introduces h with hsignatures | ⟨f, hintroduces, -⟩
      · exact hsame id hsignatures (globals_eq h rfl)
      · cases hintroduces
  | defineVariable v =>
      obtain ⟨hnew, -, rfl⟩ := Module.defineVariable_eq_ok_iff.1 h
      exact iff_of_true ((hm.putVariable_iff v).2 hnew) id
  | putOwned v owner =>
      obtain rfl := Except.ok.inj h
      exact hm.putOwned_iff v owner

/-! ### Unambiguous passes -/

namespace Module

variable {m m' : Module}

/-- Whether a name is one that lowering gives: those of the variables of a function, and that of the
table of names. -/
def MadeByLowering (name : String) : Prop :=
  name = Symbol.profileNames ∨ ∃ function, name ∈ madeNames function

/-- **A step leaves names unambiguous** if it lowers nothing, or no function has a name that
lowering gives. -/
theorem PassStep.unambiguous (h : PassStep m m') (hm : m.Unambiguous)
    (hnot : m.increments ≠ [] → ∀ name ∈ m.functionNames, ¬MadeByLowering name) :
    m'.Unambiguous := by
  refine ⟨hm.functions.sublist h.functionNames_sublist, h.nodup_globalNames hm.globals, ?_⟩
  intro name hname hglobal
  have hfunction := h.functionNames_sublist.subset hname
  cases h with
  | profile function huse =>
      rcases mem_globalNames_profile.1 hglobal with hold | hmade
      · exact hm.disjoint name hfunction hold
      · exact hnot (List.ne_nil_of_mem huse) name hfunction (.inr ⟨function, hmade⟩)
  | @fold profiled lowering hsome _ =>
      have hnodup : (m.lowerBodies lowering profiled).globalNames.Nodup := hm.globals
      rcases (mem_globalNames_foldNames hnodup).1 hglobal with htable | ⟨hold, -⟩
      · exact hnot hsome name hfunction (.inl htable)
      · exact hm.disjoint name hfunction hold
  | restrict _ =>
      exact hm.disjoint name hfunction ((List.filter_sublist.map _).subset hglobal)
  | strip => exact hm.disjoint name hfunction hglobal

end Module

end SourceCoverage
