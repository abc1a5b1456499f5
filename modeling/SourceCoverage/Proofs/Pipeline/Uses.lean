import SourceCoverage.Proofs.Module.Construction

/-!
# The Uses of Name Variables

Lowering looks at the increments of a module in order, and the first one that refers to a name
variable decides what is made for its function. In a module that follows a history the increments
are those of the pending instrumentations, and since every instrumentation inserts its increments
in front of those that are there, the first one of a function is of its latest instrumentation.

## Main results

* `firstUses_spec`: what is kept of the increments is the first one of every name variable.
* `Module.Follows.mem_increments_iff`: the increments of a module, by its history.
* `Module.Follows.use_eq`: the first increment of a function demands the latest count.
-/

namespace SourceCoverage

/-! ### First uses -/

/-- Some increments are the first uses among others: each is the first one of its name variable,
and no name variable is left out. -/
structure FirstUses (increments uses : List Increment) : Prop where
  first : ∀ use ∈ uses, increments.find? (·.nameVariable = use.nameVariable) = some use
  complete : ∀ i ∈ increments, ∃ use ∈ uses, use.nameVariable = i.nameVariable

/-- One more increment is a use if none refers to its name variable yet. -/
theorem FirstUses.snoc {increments uses : List Increment} (h : FirstUses increments uses)
    (i : Increment) : FirstUses (increments ++ [i])
      (if uses.any (·.nameVariable = i.nameVariable) then uses else uses ++ [i]) := by
  have hkept : ∀ use ∈ uses,
      (increments ++ [i]).find? (·.nameVariable = use.nameVariable) = some use := fun use huse => by
    rw [List.find?_append, h.first use huse]
    rfl
  split
  · next hany =>
      obtain ⟨use, huse, hname⟩ := List.any_eq_true.1 hany
      refine ⟨hkept, fun j hj => ?_⟩
      rcases List.mem_append.1 hj with hj | hj
      · exact h.complete j hj
      · obtain rfl := List.mem_singleton.1 hj
        exact ⟨use, huse, of_decide_eq_true hname⟩
  · next hany =>
      have hnew : increments.find? (·.nameVariable = i.nameVariable) = none := by
        refine List.find?_eq_none.2 fun j hj hname => hany ?_
        obtain ⟨use, huse, heq⟩ := h.complete j hj
        exact List.any_eq_true.2 ⟨use, huse, decide_eq_true (heq.trans (of_decide_eq_true hname))⟩
      constructor
      · intro use huse
        rcases List.mem_append.1 huse with huse | huse
        · exact hkept use huse
        · obtain rfl := List.mem_singleton.1 huse
          rw [List.find?_append, hnew, Option.none_or, List.find?_cons_of_pos (by simp)]
      · intro j hj
        rcases List.mem_append.1 hj with hj | hj
        · obtain ⟨use, huse, heq⟩ := h.complete j hj
          exact ⟨use, List.mem_append_left _ huse, heq⟩
        · obtain rfl := List.mem_singleton.1 hj
          exact ⟨j, List.mem_append_right _ (List.mem_singleton_self _), rfl⟩

/-- **What is kept of the increments are the first uses.** -/
theorem firstUses_spec (increments : List Increment) :
    FirstUses increments (firstUses increments) := by
  have hfold : ∀ (rest done uses : List Increment), FirstUses done uses →
      FirstUses (done ++ rest) (rest.foldl (fun uses increment =>
        if uses.any (·.nameVariable = increment.nameVariable) then uses
        else uses ++ [increment]) uses) := by
    intro rest
    induction rest with
    | nil =>
        intro done uses h
        rwa [List.append_nil]
    | cons i rest ih =>
        intro done uses h
        have hnext := ih (done ++ [i]) _ (h.snoc i)
        rwa [List.append_assoc, List.singleton_append] at hnext
  exact hfold increments [] [] ⟨nofun, nofun⟩

/-! ### The increments of a history -/

/-- The increments of a body are those of the pending instrumentations. -/
theorem Shape.filterMap_increment?_body {function : String} {shape : Shape} :
    (shape.body function).filterMap (·.increment?) = shape.pending.flatMap fun count =>
      (List.range count.toNat).map fun index =>
        Instrumentation.increment ⟨⟨function⟩, count⟩ (UInt32.ofNat index) := by
  have hpending : (shape.pending.flatMap (increments function)).filterMap (·.increment?)
      = shape.pending.flatMap fun count => (List.range count.toNat).map fun index =>
        Instrumentation.increment ⟨⟨function⟩, count⟩ (UInt32.ofNat index) := by
    rw [List.filterMap_flatMap]
    refine List.flatMap_congr fun count _ => ?_
    rw [increments, List.filterMap_map]
    exact List.filterMap_eq_map.symm ▸ rfl
  have hlowered : (shape.lowered.flatMap (updates function)).filterMap (·.increment?) = [] := by
    refine List.filterMap_eq_nil_iff.2 fun i hi => ?_
    obtain ⟨entry, -, hi⟩ := List.mem_flatMap.1 hi
    obtain ⟨index, -, rfl⟩ := mem_updates_iff.1 hi
    exact increment?_update
  have hcallees : (shape.callees.map (Instruction.call · none)).filterMap (·.increment?) = [] := by
    refine List.filterMap_eq_nil_iff.2 fun i hi => ?_
    obtain ⟨callee, -, rfl⟩ := List.mem_map.1 hi
    rfl
  have hret : [Instruction.ret].filterMap (·.increment?) = [] := rfl
  rw [body, List.filterMap_append, List.filterMap_append, List.filterMap_append, hpending,
    hlowered, hcallees, hret]
  simp

namespace Module.Follows

variable {m : Module} {history : History}

/-- The increments of the body of a function. -/
theorem filterMap_increment? (h : m.Follows history) {f : Function} (hf : f ∈ m.functions) :
    f.instructions.filterMap (·.increment?) = (history f.name).pending.flatMap fun count =>
      (List.range count.toNat).map fun index =>
        Instrumentation.increment ⟨⟨f.name⟩, count⟩ (UInt32.ofNat index) := by
  rw [Function.instructions]
  cases hbody : f.body with
  | none =>
      rw [h.history_eq_empty hf hbody]
      rfl
  | some body =>
      obtain ⟨rfl, -⟩ := h.body_eq hf hbody
      exact Shape.filterMap_increment?_body

/-- **The increments of a module** are those of the pending instrumentations. -/
theorem mem_increments_iff (h : m.Follows history) {i : Increment} :
    i ∈ m.increments ↔ ∃ function, ∃ count ∈ (history function).pending, ∃ index < count,
      Instrumentation.increment ⟨⟨function⟩, count⟩ index = i := by
  rw [increments, List.mem_flatMap]
  constructor
  · rintro ⟨f, hf, hi⟩
    rw [h.filterMap_increment? hf] at hi
    obtain ⟨count, hcount, hi⟩ := List.mem_flatMap.1 hi
    exact ⟨f.name, count, hcount, Shape.mem_map_range_iff.1 hi⟩
  · rintro ⟨function, count, hcount, hi⟩
    have hne : history function ≠ .empty := Shape.ne_empty_iff.2 (.inl (List.ne_nil_of_mem hcount))
    obtain ⟨f, hf, rfl, -⟩ := h.exists_definition hne
    refine ⟨f, hf, ?_⟩
    rw [h.filterMap_increment? hf]
    exact List.mem_flatMap.2 ⟨count, hcount, Shape.mem_map_range_iff.2 hi⟩

/-- A use is an increment of the latest pending instrumentation of a function. -/
structure IsUse (history : History) (function : String) (use : Increment) : Prop where
  nameVariable : use.nameVariable = Symbol.nameVariable function
  functionHash : use.functionHash = SourceCoverage.functionHash (utf8 function)
  head? : (history function).pending.head? = some use.counterCount

/-- The first of the increments of pending instrumentations is of the latest one. -/
theorem head?_increments {function : String} {counts : List UInt32} {use : Increment}
    (hcounts : ∀ count ∈ counts, count ≠ 0)
    (hhead : (counts.flatMap fun count => (List.range count.toNat).map fun index =>
      Instrumentation.increment ⟨⟨function⟩, count⟩ (UInt32.ofNat index)).head? = some use) :
    counts.head? = some use.counterCount := by
  cases counts with
  | nil => cases hhead
  | cons count rest =>
      have hpos : count.toNat ≠ 0 := fun hzero =>
        hcounts count (List.mem_cons_self ..) (UInt32.toNat_inj.1 hzero)
      obtain ⟨k, hk⟩ := Nat.exists_eq_succ_of_ne_zero hpos
      rw [List.flatMap_cons, hk, List.range_succ_eq_map, List.map_cons, List.cons_append,
        List.head?_cons] at hhead
      rw [← Option.some.inj hhead]
      rfl

/-- **The first increment of a function demands the latest count.** -/
theorem isUse_of_find? (h : m.Follows history) {use : Increment}
    (hfind : m.increments.find? (·.nameVariable = use.nameVariable) = some use) :
    ∃ function, IsUse history function use := by
  rw [increments, List.find?_flatMap] at hfind
  obtain ⟨f, hf, hfind⟩ := List.exists_of_findSome?_eq_some hfind
  rw [h.filterMap_increment? hf] at hfind
  have hall : ∀ i ∈ (history f.name).pending.flatMap (fun count =>
      (List.range count.toNat).map fun index =>
        Instrumentation.increment ⟨⟨f.name⟩, count⟩ (UInt32.ofNat index)),
      i.nameVariable = Symbol.nameVariable f.name ∧
        i.functionHash = SourceCoverage.functionHash (utf8 f.name) := by
    intro i hi
    obtain ⟨count, -, hi⟩ := List.mem_flatMap.1 hi
    obtain ⟨index, -, rfl⟩ := List.mem_map.1 hi
    exact ⟨rfl, rfl⟩
  obtain ⟨hname, hhash⟩ := hall use (List.mem_of_find?_eq_some hfind)
  -- All these increments refer to the same name variable, so that the first one is found.
  rw [← List.head?_filter, List.filter_eq_self.2 fun i hi =>
    decide_eq_true ((hall i hi).1.trans hname.symm)] at hfind
  exact ⟨f.name, hname, hhash, head?_increments (h.valid f.name).pending hfind⟩

end Module.Follows

end SourceCoverage
