import SourceCoverage.Symbol

/-!
# Reserved Names

A program under instrumentation shares the name space of symbols with what instrumentation,
lowering and emission put into its module. A name is *unreserved* if it has none of the heads
that those symbols have; a program that keeps to unreserved names cannot meet them. Among
themselves the symbols of instrumentation are told apart by their names.

## Main results

* `OwnSymbol.name_inj`: the name of a symbol of instrumentation tells which one it is.
* `OwnSymbol.not_unreserved_name`: no unreserved name is that of a symbol of instrumentation.
-/

namespace SourceCoverage

namespace Symbol

/-- The heads of the names that are not for programs. -/
def reservedHeads : List String := ["__prof", "__covrec_", "__llvm_", "llvm."]

/-- Whether a name is for programs. -/
def Unreserved (name : String) : Prop := ∀ head ∈ reservedHeads, after? head name = none

/-- Heads are compared by looking. -/
instance (name : String) : Decidable (Unreserved name) :=
  inferInstanceAs (Decidable (∀ head ∈ reservedHeads, after? head name = none))

/-- A name with a reserved head is not for programs. -/
theorem not_unreserved_append {head : String} (hhead : head ∈ reservedHeads) (rest : String) :
    ¬Unreserved (head ++ rest) := by
  intro h
  have hnone := h head hhead
  rw [after?_eq_some_iff.2 rfl] at hnone
  cases hnone

end Symbol

/-- The symbols of instrumentation: those of a function, those of the module, and the two
functions that are only declared. -/
inductive OwnSymbol where
  | counters (function : String)
  | profileData (function : String)
  | nameVariable (function : String)
  | coverageRecord (function : String)
  | coverageMapping
  | profileNames
  | profileRuntimeUser
  | incrementIntrinsic
  | profileRuntime

namespace OwnSymbol

/-- The name of a symbol of instrumentation. -/
def name : OwnSymbol → String
  | counters function => Symbol.counters function
  | profileData function => Symbol.profileData function
  | nameVariable function => Symbol.nameVariable function
  | coverageRecord function => Symbol.coverageRecord function
  | coverageMapping => Symbol.coverageMapping
  | profileNames => Symbol.profileNames
  | profileRuntimeUser => Symbol.profileRuntimeUser
  | incrementIntrinsic => Symbol.incrementIntrinsic
  | profileRuntime => Symbol.profileRuntime

/-- **The names tell the symbols of instrumentation apart.** -/
theorem name_inj {a b : OwnSymbol} : a.name = b.name ↔ a = b := by
  rw [← String.toList_inj]
  cases a <;> cases b <;>
    simp [name, Symbol.counters, Symbol.countersHead, Symbol.profileData, Symbol.nameVariable,
      Symbol.coverageRecord, Symbol.coverageMapping, Symbol.profileNames,
      Symbol.profileRuntimeUser, Symbol.incrementIntrinsic, Symbol.profileRuntime,
      String.toList_append, String.toList_inj]

/-- **The symbols of instrumentation have reserved names.** -/
theorem not_unreserved_name (symbol : OwnSymbol) : ¬Symbol.Unreserved symbol.name := by
  have hsplit : ∃ head ∈ Symbol.reservedHeads, ∃ rest, symbol.name = head ++ rest := by
    cases symbol with
    | counters function =>
        exact ⟨"__prof", by decide, "c_" ++ function, by rw [← String.append_assoc]; rfl⟩
    | profileData function =>
        exact ⟨"__prof", by decide, "d_" ++ function, by rw [← String.append_assoc]; rfl⟩
    | nameVariable function =>
        exact ⟨"__prof", by decide, "n_" ++ function, by rw [← String.append_assoc]; rfl⟩
    | coverageRecord function => exact ⟨"__covrec_", by decide, function, rfl⟩
    | coverageMapping => exact ⟨"__llvm_", by decide, "coverage_mapping", rfl⟩
    | profileNames => exact ⟨"__llvm_", by decide, "prf_nm", rfl⟩
    | profileRuntimeUser => exact ⟨"__llvm_", by decide, "profile_runtime_user", rfl⟩
    | incrementIntrinsic => exact ⟨"llvm.", by decide, "instrprof.increment", rfl⟩
    | profileRuntime => exact ⟨"__llvm_", by decide, "profile_runtime", rfl⟩
  obtain ⟨head, hhead, rest, hname⟩ := hsplit
  rw [hname]
  exact Symbol.not_unreserved_append hhead rest

/-- An unreserved name is not that of a symbol of instrumentation. -/
theorem ne_name_of_unreserved {name : String} (h : Symbol.Unreserved name) (symbol : OwnSymbol) :
    name ≠ symbol.name :=
  fun heq => symbol.not_unreserved_name (heq ▸ h)

end OwnSymbol

end SourceCoverage
