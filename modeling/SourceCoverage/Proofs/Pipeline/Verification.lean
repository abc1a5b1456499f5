import SourceCoverage.Pipeline.Verification
import SourceCoverage.Proofs.Module.Construction

/-!
# What Verification Accepts

Verification looks for offences along the reference graph and then along the functions. For a
module without ambiguous names it finds none exactly if the module is well formed: every
reference resolves, increments are calls of intrinsics, and bodies end in a return. A module that
follows a history is well formed.

## Main results

* `Module.offence?_eq_none_iff`: verification is exact.
* `Module.WellFormed.offence?_eq_none`: where names are ambiguous, it still accepts well formed
  modules.
* `Module.Follows.wellFormed`: a module that follows a history is well formed.
-/

namespace SourceCoverage.Module

variable {m : Module} {history : History}

/-- The module is well formed. -/
structure WellFormed (m : Module) : Prop where
  resolved : m.Resolved
  intrinsic : ∀ f ∈ m.functions, ∀ callee increment,
    .call callee (some increment) ∈ f.instructions → m.hasIntrinsic callee
  terminated : ∀ f ∈ m.functions, ∀ body, f.body = some body → body.getLast? = some .ret

/-- No offence of dangling references is found exactly if every reference resolves. -/
theorem findSome?_danglingOffence?_eq_none_iff (h : m.Unambiguous) :
    m.referenceGraph.findSome? m.danglingOffence? = none ↔ m.Resolved := by
  have hentry : ∀ entry, m.danglingOffence? entry = none ↔ ∀ name ∈ entry.2, m.hasSymbol name := by
    intro entry
    rw [danglingOffence?, Option.map_eq_none_iff, List.find?_eq_none]
    simp
  rw [List.findSome?_eq_none_iff, referenceGraph_eq h]
  simp only [hentry, functionEntries, globalEntries, List.mem_append, List.mem_map]
  constructor
  · intro hall name hname
    rcases mem_references_iff.1 hname with ⟨f, hf, hmem⟩ | ⟨g, hg, hmem⟩
    · exact hall _ (.inl ⟨f, hf, rfl⟩) name hmem
    · exact hall _ (.inr ⟨g, hg, rfl⟩) name hmem
  · rintro hresolved _ (⟨f, hf, rfl⟩ | ⟨g, hg, rfl⟩) name hname
    · exact hresolved name (mem_references_iff.2 (.inl ⟨f, hf, hname⟩))
    · exact hresolved name (mem_references_iff.2 (.inr ⟨g, hg, hname⟩))

/-- No offence is found in an instruction exactly if it is no increment or calls an intrinsic. -/
theorem instructionOffence?_eq_none_iff {f : Function} {i : Instruction} :
    m.instructionOffence? f i = none
      ↔ ∀ callee increment, i = .call callee (some increment) → m.hasIntrinsic callee := by
  cases i with
  | call callee increment =>
      cases increment with
      | none => simp [instructionOffence?]
      | some increment => simp [instructionOffence?]
  | atomicAdd _ _ => simp [instructionOffence?]
  | loadAddStore _ _ => simp [instructionOffence?]
  | ret => simp [instructionOffence?]

/-- No offence is found in a function exactly if its increments call intrinsics and its body, if
it has one, ends in a return. -/
theorem functionOffence?_eq_none_iff {f : Function} :
    m.functionOffence? f = none
      ↔ (∀ callee increment, .call callee (some increment) ∈ f.instructions →
          m.hasIntrinsic callee) ∧
        ∀ body, f.body = some body → body.getLast? = some .ret := by
  rw [functionOffence?, Option.or_eq_none_iff, List.findSome?_eq_none_iff]
  refine and_congr ?_ ?_
  · simp only [instructionOffence?_eq_none_iff]
    constructor
    · exact fun hall callee increment hmem => hall _ hmem callee increment rfl
    · rintro hall _ hmem callee increment rfl
      exact hall callee increment hmem
  · cases f.body with
    | none => simp
    | some body => simp

/-- **Verification is exact**: where names are not ambiguous, no offence is found exactly if the
module is well formed. -/
theorem offence?_eq_none_iff (h : m.Unambiguous) :
    m.offence? m.referenceGraph = none ↔ m.WellFormed := by
  rw [offence?, Option.or_eq_none_iff, findSome?_danglingOffence?_eq_none_iff h,
    List.findSome?_eq_none_iff]
  simp only [functionOffence?_eq_none_iff]
  constructor
  · rintro ⟨hresolved, hfunctions⟩
    exact ⟨hresolved, fun f hf => (hfunctions f hf).1, fun f hf => (hfunctions f hf).2⟩
  · rintro ⟨hresolved, hintrinsic, hterminated⟩
    exact ⟨hresolved, fun f hf => ⟨hintrinsic f hf, hterminated f hf⟩⟩

/-- In a well formed module no offence is found, ambiguous names or not. -/
theorem WellFormed.offence?_eq_none (h : m.WellFormed) : m.offence? m.referenceGraph = none := by
  rw [offence?, Option.or_eq_none_iff, List.findSome?_eq_none_iff, List.findSome?_eq_none_iff]
  constructor
  · intro entry hentry
    rw [danglingOffence?, Option.map_eq_none_iff, List.find?_eq_none]
    intro name hname
    simpa using h.resolved name (mem_references_of_mem_referenceGraph hentry hname)
  · intro f hf
    exact functionOffence?_eq_none_iff.2 ⟨h.intrinsic f hf, h.terminated f hf⟩

/-- **A module that follows a history is well formed.** -/
theorem Follows.wellFormed (h : m.Follows history) : m.WellFormed where
  resolved := h.resolved
  intrinsic := fun f hf callee increment hmem => by
    cases h.function f hf with
    | declaration _ => cases hmem
    | increment => cases hmem
    | runtime => cases hmem
    | definition _ hvalid =>
        rcases Shape.mem_body_iff.1 hmem with ⟨count, hcount, hmem⟩ | ⟨entry, -, hmem⟩ |
          ⟨callee, -, heq⟩ | heq
        · obtain ⟨index, -, heq⟩ := Shape.mem_increments_iff.1 hmem
          obtain ⟨rfl, -⟩ := Instruction.call.inj heq
          exact h.hasIntrinsic (h.incrementIntrinsic_mem (List.ne_nil_of_mem hcount))
        · obtain ⟨index, -, heq⟩ := Shape.mem_updates_iff.1 hmem
          cases hatomic : entry.2 <;> simp [Shape.update, hatomic] at heq
        · cases heq
        · cases heq
  terminated := fun f hf body hbody => by
    obtain ⟨rfl, -⟩ := h.body_eq hf hbody
    simp [Shape.body]

end SourceCoverage.Module
