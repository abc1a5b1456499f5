import SourceCoverage.Mapping.Numbering

/-!
# What the Numbering Traversal Reaches

The expressions that a mapping keeps are those *within reach* of its regions: the ones that a
region's counter refers to, and the operands of those, however deep. Reach is defined here by
induction and without a traversal; expressions that share operands or form cycles need no
special care in it.

The traversal `numberFrom` is tied to this relation by an invariant of its two lists,
`Traversal`, which every step keeps and which an empty stack turns into an equivalence.

## Main results

* `Mapping.exists_expressionOrder_iff`: expressions can be numbered unless a reference within reach
  leads out of the table.
* `Mapping.mem_expressionOrder_iff`: the positions that get a number are those within reach.
* `Mapping.nodup_expressionOrder`: no position gets two numbers.
* `Mapping.getElem?_of_mem_expressionOrder`: every numbered position holds an expression.
-/

namespace SourceCoverage

/-- The operands of an expression. -/
def Expression.operands (e : Expression) : List Counter := [e.lhs, e.rhs]

/-- The expressions within reach of some counters: those that one of them refers to, and those
that an operand of an expression within reach refers to. -/
inductive Reaches (table : List Expression) (counters : List Counter) : UInt32 → Prop
  | counter {id : UInt32} : .expression id ∈ counters → Reaches table counters id
  | operand {id id' : UInt32} {e : Expression} :
      Reaches table counters id → table[id.toNat]? = some e →
      .expression id' ∈ e.operands → Reaches table counters id'

/-- The expressions within reach of a mapping's regions. -/
def Mapping.Reaches (mapping : Mapping) (id : UInt32) : Prop :=
  SourceCoverage.Reaches mapping.expressions mapping.regionCounters id

/-- The step of the traversal at an expression: it gets a number if it has none yet. -/
theorem numberFrom_expression {table : List Expression} {order : List Nat}
    {pending : List Counter} {id : UInt32} {e : Expression} (he : table[id.toNat]? = some e) :
    numberFrom table order (.expression id :: pending)
      = if id.toNat ∈ order then numberFrom table order pending
        else numberFrom table (order ++ [id.toNat]) (e.lhs :: e.rhs :: pending) := by
  rw [numberFrom]
  split
  · next hnone => simp [he] at hnone
  · next e' he' =>
      obtain rfl : e = e' := Option.some.inj (he.symm.trans he')
      rfl

/-- At a reference out of the table it stops. -/
theorem numberFrom_unknown {table : List Expression} {order : List Nat} {pending : List Counter}
    {id : UInt32} (hnone : table[id.toNat]? = none) :
    numberFrom table order (.expression id :: pending)
      = .error (.unknownExpression id table.length) := by
  rw [numberFrom]
  split
  · rfl
  · next e he => simp [hnone] at he

/-- The **invariant of the traversal** that started from some counters: the numbered positions
are distinct, hold expressions and are within reach, as is everything on the stack, and each
counter that was started from or is an operand of a numbered expression has been dealt with, by
a number or by a place on the stack. -/
structure Traversal (table : List Expression) (counters : List Counter) (order : List Nat)
    (pending : List Counter) : Prop where
  nodup : order.Nodup
  known : ∀ i ∈ order, i < table.length
  reached : ∀ i ∈ order, ∃ id : UInt32, id.toNat = i ∧ Reaches table counters id
  pendingReached : ∀ id, .expression id ∈ pending → Reaches table counters id
  countersMet : ∀ id, .expression id ∈ counters → id.toNat ∈ order ∨ .expression id ∈ pending
  operandsMet : ∀ i ∈ order, ∀ e, table[i]? = some e → ∀ id, .expression id ∈ e.operands →
    id.toNat ∈ order ∨ .expression id ∈ pending

namespace Traversal

variable {table : List Expression} {counters : List Counter} {order : List Nat}
  {pending : List Counter}

/-- The invariant at the start. -/
theorem start : Traversal table counters [] counters where
  nodup := List.nodup_nil
  known := by simp
  reached := by simp
  pendingReached := fun _ hid => .counter hid
  countersMet := fun _ hid => .inr hid
  operandsMet := by simp

/-- A counter on the stack that refers to no expression is passed over. -/
theorem pass {c : Counter} (h : Traversal table counters order (c :: pending))
    (hc : ∀ id, c ≠ .expression id) : Traversal table counters order pending where
  nodup := h.nodup
  known := h.known
  reached := h.reached
  pendingReached := fun id hid => h.pendingReached id (List.mem_cons_of_mem _ hid)
  countersMet := fun id hid =>
    (h.countersMet id hid).imp_right fun hmem => by simpa [(hc id).symm] using hmem
  operandsMet := fun i hi e he id hid =>
    (h.operandsMet i hi e he id hid).imp_right fun hmem => by simpa [(hc id).symm] using hmem

/-- An expression on the stack that has its number already is passed over. -/
theorem revisit {id : UInt32} (h : Traversal table counters order (.expression id :: pending))
    (hid : id.toNat ∈ order) : Traversal table counters order pending where
  nodup := h.nodup
  known := h.known
  reached := h.reached
  pendingReached := fun id' hid' => h.pendingReached id' (List.mem_cons_of_mem _ hid')
  countersMet := fun id' hid' => by
    rcases h.countersMet id' hid' with hmem | hmem
    · exact .inl hmem
    · rcases List.mem_cons.1 hmem with heq | hmem
      · exact .inl (Counter.expression.inj heq ▸ hid)
      · exact .inr hmem
  operandsMet := fun i hi e he id' hid' => by
    rcases h.operandsMet i hi e he id' hid' with hmem | hmem
    · exact .inl hmem
    · rcases List.mem_cons.1 hmem with heq | hmem
      · exact .inl (Counter.expression.inj heq ▸ hid)
      · exact .inr hmem

/-- An expression without a number gets one, and its operands go on the stack. -/
theorem visit {id : UInt32} {e : Expression}
    (h : Traversal table counters order (.expression id :: pending))
    (he : table[id.toNat]? = some e) (hid : id.toNat ∉ order) :
    Traversal table counters (order ++ [id.toNat]) (e.lhs :: e.rhs :: pending) := by
  have hreach : SourceCoverage.Reaches table counters id :=
    h.pendingReached id (List.mem_cons_self ..)
  have hmet : ∀ id', id'.toNat ∈ order ∨ .expression id' ∈ Counter.expression id :: pending →
      id'.toNat ∈ order ++ [id.toNat] ∨ .expression id' ∈ e.lhs :: e.rhs :: pending := by
    rintro id' (hmem | hmem)
    · exact .inl (List.mem_append_left _ hmem)
    · rcases List.mem_cons.1 hmem with heq | hmem
      · obtain rfl := Counter.expression.inj heq
        exact .inl (List.mem_append_right _ (List.mem_singleton.2 rfl))
      · exact .inr (List.mem_cons_of_mem _ (List.mem_cons_of_mem _ hmem))
  refine ⟨?_, ?_, ?_, ?_, ?_, ?_⟩
  · refine List.nodup_append.2 ⟨h.nodup, by simp, ?_⟩
    rintro i hi j hj rfl
    exact hid (List.mem_singleton.1 hj ▸ hi)
  · intro i hi
    rcases List.mem_append.1 hi with hi | hi
    · exact h.known i hi
    · obtain rfl := List.mem_singleton.1 hi
      exact (List.getElem?_eq_some_iff.1 he).1
  · intro i hi
    rcases List.mem_append.1 hi with hi | hi
    · exact h.reached i hi
    · exact ⟨id, (List.mem_singleton.1 hi).symm, hreach⟩
  · intro id' hid'
    rcases List.mem_cons.1 hid' with hlhs | hid'
    · exact .operand hreach he (by simp [Expression.operands, hlhs])
    · rcases List.mem_cons.1 hid' with hrhs | hid'
      · exact .operand hreach he (by simp [Expression.operands, hrhs])
      · exact h.pendingReached id' (List.mem_cons_of_mem _ hid')
  · exact fun id' hid' => hmet id' (h.countersMet id' hid')
  · intro i hi e' he' id' hid'
    rcases List.mem_append.1 hi with hi | hi
    · exact hmet id' (h.operandsMet i hi e' he' id' hid')
    · obtain rfl := List.mem_singleton.1 hi
      obtain rfl : e = e' := Option.some.inj (he.symm.trans he')
      refine .inr ?_
      simp only [Expression.operands, List.mem_cons, List.not_mem_nil, or_false] at hid'
      rcases hid' with hlhs | hrhs
      · exact hlhs ▸ List.mem_cons_self ..
      · exact hrhs ▸ List.mem_cons_of_mem _ (List.mem_cons_self ..)

/-- A traversal that comes to an end leaves nothing on the stack. -/
theorem numberFrom {result : List Nat} (h : Traversal table counters order pending)
    (hrun : numberFrom table order pending = .ok result) :
    Traversal table counters result [] := by
  fun_induction SourceCoverage.numberFrom table order pending with
  | case1 order =>
      obtain rfl := Except.ok.inj hrun
      exact h
  | case2 order id pending hnone => simp at hrun
  | case3 order id pending e he hid ih => exact ih (h.revisit hid) hrun
  | case4 order id pending e he hid ih => exact ih (h.visit he hid) hrun
  | case5 order pending ih => exact ih (h.pass (by simp)) hrun
  | case6 order id pending ih => exact ih (h.pass (by simp)) hrun

/-- A traversal that has nothing but expressions of the table within reach comes to an end. -/
theorem exists_numberFrom (h : Traversal table counters order pending)
    (hknown : ∀ id, SourceCoverage.Reaches table counters id → id.toNat < table.length) :
    ∃ result, SourceCoverage.numberFrom table order pending = .ok result := by
  fun_induction SourceCoverage.numberFrom table order pending with
  | case1 order => exact ⟨order, rfl⟩
  | case2 order id pending hnone =>
      have hlt := hknown id (h.pendingReached id (List.mem_cons_self ..))
      rw [List.getElem?_eq_none_iff] at hnone
      omega
  | case3 order id pending e he hid ih => exact ih (h.revisit hid)
  | case4 order id pending e he hid ih => exact ih (h.visit he hid)
  | case5 order pending ih => exact ih (h.pass (by simp))
  | case6 order id pending ih => exact ih (h.pass (by simp))

/-- With nothing left on the stack, everything within reach has its number. -/
theorem mem_of_reaches (h : Traversal table counters order []) {id : UInt32}
    (hid : SourceCoverage.Reaches table counters id) : id.toNat ∈ order := by
  induction hid with
  | counter hmem => exact (h.countersMet _ hmem).resolve_right (by simp)
  | operand _ he hmem ih => exact (h.operandsMet _ ih _ he _ hmem).resolve_right (by simp)

end Traversal

namespace Mapping

variable {mapping : Mapping} {order : List Nat}

/-- What the numbering of a mapping's expressions ends with. -/
theorem traversal_expressionOrder (h : mapping.expressionOrder = .ok order) :
    Traversal mapping.expressions mapping.regionCounters order [] :=
  Traversal.start.numberFrom h

/-- No position gets two numbers. -/
theorem nodup_expressionOrder (h : mapping.expressionOrder = .ok order) : order.Nodup :=
  (traversal_expressionOrder h).nodup

/-- The numbered positions are exactly those within reach of the regions. -/
theorem mem_expressionOrder_iff (h : mapping.expressionOrder = .ok order) {id : UInt32} :
    id.toNat ∈ order ↔ mapping.Reaches id := by
  constructor
  · intro hmem
    obtain ⟨id', heq, hreach⟩ := (traversal_expressionOrder h).reached _ hmem
    exact UInt32.toNat_inj.1 heq ▸ hreach
  · exact (traversal_expressionOrder h).mem_of_reaches

/-- The expressions of a mapping can be numbered exactly if all within reach are in the table. -/
theorem exists_expressionOrder_iff : (∃ order, mapping.expressionOrder = .ok order) ↔
    ∀ id, mapping.Reaches id → id.toNat < mapping.expressions.length := by
  constructor
  · rintro ⟨order, horder⟩ id hid
    exact (traversal_expressionOrder horder).known _ ((mem_expressionOrder_iff horder).2 hid)
  · intro hknown
    exact Traversal.start.exists_numberFrom hknown

/-- Every numbered position is that of an expression, and is told by a 32-bit word. -/
theorem getElem?_of_mem_expressionOrder (h : mapping.expressionOrder = .ok order) {i : Nat}
    (hi : i ∈ order) : i < UInt32.size ∧ ∃ e, mapping.expressions[i]? = some e := by
  obtain ⟨id, rfl, -⟩ := (traversal_expressionOrder h).reached i hi
  have hlt := (traversal_expressionOrder h).known _ hi
  exact ⟨id.toNat_lt, _, List.getElem?_eq_getElem hlt⟩

end Mapping

end SourceCoverage
