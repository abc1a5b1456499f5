import SourceCoverage.Mapping.Basic

/-!
# Numbering of Expressions

An encoded mapping keeps only the expressions that its regions reach, and numbers them in the
order in which a traversal first meets them: the counters of the regions in turn, and under each
expression the left operand before the right one. The traversal keeps a stack of the counters
that it still has to visit, so that chains of any length and cycles are no trouble: an expression
that has its number already is passed over.

The numbers are given as the list of the expressions' old positions; the new number of an
expression is its place in that list.
-/

namespace SourceCoverage

/-- How many positions below `size` have no number yet. -/
def unnumbered (size : Nat) (order : List Nat) : Nat :=
  (List.range size).countP fun i => !order.contains i

private theorem countP_lt_of_imp {α : Type} {p q : α → Bool} {xs : List α} {a : α}
    (imp : ∀ x, p x = true → q x = true) (mem : a ∈ xs) (ha : q a = true) (hna : p a = false) :
    xs.countP p < xs.countP q := by
  induction xs with
  | nil => simp at mem
  | cons x xs ih =>
    have le : xs.countP p ≤ xs.countP q := List.countP_mono_left fun x _ => imp x
    rw [List.countP_cons, List.countP_cons]
    rcases List.mem_cons.1 mem with rfl | mem
    · simp only [ha, hna, if_true, Bool.false_eq_true, if_false]
      omega
    · have lt := ih mem
      by_cases hp : p x = true
      · simp only [hp, imp x hp, if_true]
        omega
      · simp only [hp, Bool.false_eq_true, if_false]
        omega

/-- Giving a number leaves one position less without one. -/
theorem unnumbered_append_lt {size id : Nat} {order : List Nat} (bound : id < size)
    (fresh : id ∉ order) : unnumbered size (order ++ [id]) < unnumbered size order := by
  refine countP_lt_of_imp ?_ (List.mem_range.2 bound) ?_ ?_ <;> simp_all

/-- Visits the counters on the stack `pending` when the expressions in `order` have their
numbers. The first counter met that refers beyond the table is an error. -/
def numberFrom (table : List Expression) (order : List Nat) :
    (pending : List Counter) → Except MappingError (List Nat)
  | [] => .ok order
  | .expression id :: pending =>
    match _h : table[id.toNat]? with
    | none => .error (.unknownExpression id table.length)
    | some e =>
      if id.toNat ∈ order then numberFrom table order pending
      else numberFrom table (order ++ [id.toNat]) (e.lhs :: e.rhs :: pending)
  | .zero :: pending => numberFrom table order pending
  | .physical _ :: pending => numberFrom table order pending
termination_by pending => (unnumbered table.length order, pending.length)
decreasing_by
  · exact Prod.Lex.right _ (by simp)
  · rename_i fresh
    exact Prod.Lex.left _ _ (unnumbered_append_lt (List.getElem?_eq_some_iff.1 ‹_›).1 fresh)
  · exact Prod.Lex.right _ (by simp)
  · exact Prod.Lex.right _ (by simp)

/-- The order in which the traversal meets the expressions that a mapping's regions reach. -/
def Mapping.expressionOrder (mapping : Mapping) : Except MappingError (List Nat) :=
  numberFrom mapping.expressions [] mapping.regionCounters

/-- A counter under the new numbers. One without a number is left alone. -/
def Counter.renumber (order : List Nat) : Counter → Counter
  | .expression id =>
    match order.idxOf? id.toNat with
    | some number => .expression (UInt32.ofNat number)
    | none => .expression id
  | counter => counter

end SourceCoverage
