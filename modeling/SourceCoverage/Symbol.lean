import SourceCoverage.Text.Affix

/-!
# Symbol Names

The profiling runtime and the coverage tools find instrumentation data by the names of the
symbols that hold it, so the names are fixed. Each instrumented function has four symbols of its
own, named by a head and the function's name; the module has a few more.

## Main results

* `Symbol.countersOwner?_eq_some_iff` — the function of a counter array is read off its name,
  and only the counter arrays of functions that have a name are recognised.
-/

namespace SourceCoverage.Symbol

/-- The head of counter array names. -/
def countersHead : String := "__profc_"

/-- The counter array of a function. -/
def counters (function : String) : String := countersHead ++ function

/-- The profile data record of a function. -/
def profileData (function : String) : String := "__profd_" ++ function

/-- The variable that holds the name of a function until its increments are lowered. -/
def nameVariable (function : String) : String := "__profn_" ++ function

/-- The coverage record of a function. -/
def coverageRecord (function : String) : String := "__covrec_" ++ function

/-- The coverage header with the filenames table. -/
def coverageMapping : String := "__llvm_coverage_mapping"

/-- The names of all profiled functions, which replace the name variables. -/
def profileNames : String := "__llvm_prf_nm"

/-- The intrinsic that increments a counter. -/
def incrementIntrinsic : String := "llvm.instrprof.increment"

/-- The head of every intrinsic's name. -/
def intrinsicHead : String := "llvm."

/-- The entry point of the profiling runtime. -/
def profileRuntime : String := "__llvm_profile_runtime"

/-- The variable that refers to the entry point, so that the runtime is linked. -/
def profileRuntimeUser : String := "__llvm_profile_runtime_user"

/-- What follows `head` in `name`, if `name` starts with it. -/
def after? (head name : String) : Option String :=
  (Text.dropHead? head.toList name.toList).map String.ofList

/-- The function that a counter array counts for. A name that is no counter array's, or that
names no function, has none. -/
def countersOwner? (name : String) : Option String :=
  (after? countersHead name).filter (· ≠ "")

/-! ### Names and their heads -/

/-- A name starts with a head exactly when it is the head followed by the rest. -/
theorem after?_eq_some_iff {head name rest : String} :
    after? head name = some rest ↔ name = head ++ rest := by
  rw [after?, Option.map_eq_some_iff]
  constructor
  · rintro ⟨chars, h, rfl⟩
    rw [Text.dropHead?_eq_some_iff] at h
    rw [← String.ofList_toList (s := name), h, String.ofList_append, String.ofList_toList]
  · rintro rfl
    exact ⟨rest.toList, by simp [Text.dropHead?_eq_some_iff], String.ofList_toList⟩

/-- The names of counter arrays are those of the functions that have a name. -/
theorem countersOwner?_eq_some_iff {name function : String} :
    countersOwner? name = some function ↔ name = counters function ∧ function ≠ "" := by
  simp [countersOwner?, Option.filter_eq_some_iff, after?_eq_some_iff, counters]

end SourceCoverage.Symbol
