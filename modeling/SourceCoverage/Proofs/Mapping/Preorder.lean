import SourceCoverage.Proofs.Mapping.Reachability

/-!
# Numbering by Recursion

The numbering traversal keeps a stack of what it has to visit, on which an expression can wait
several times before it gets its number. What it computes is said without a stack by a *recursion*:
a counter that refers to an expression without a number gives it the next one, and then its operands
are visited, the left one with all that is under it before the right one. That the recursion ends,
though expressions form cycles, is because each call that goes deeper leaves one expression less
without a number.

The recursion does not stop at a reference out of the table. It lists it, once, like a reference to
an expression without operands, so that the first such reference that it meets is the first one in
its list.

## Main results

* `Mapping.nodup_preorder`, `Mapping.mem_preorder_iff`: the recursion lists the references within
  reach, each of them once.
* `Mapping.expressionOrder_eq_preorder`: the traversal with a stack numbers expressions in the order
  of the recursion, and stops at the first reference in it that is out of the table.
-/

namespace SourceCoverage

variable {table : List Expression} {seen : List UInt32} {c : Counter}

/-! ### The recursion -/

/-- The more positions have a number, the fewer have none. -/
theorem unnumbered_mono {size : Nat} {order order' : List Nat} (h : order ⊆ order') :
    unnumbered size order' ≤ unnumbered size order := by
  refine List.countP_mono_left fun i _ hi => ?_
  simp only [Bool.not_eq_true', List.contains_eq_mem, decide_eq_false_iff_not] at hi ⊢
  exact fun hmem => hi (h hmem)

/-- References are told apart by their positions. -/
theorem mem_map_toNat {id : UInt32} : id.toNat ∈ seen.map UInt32.toNat ↔ id ∈ seen := by
  simp [UInt32.toNat_inj]

/-- A reference that is met for the first time leaves one expression less without a number. -/
theorem unnumbered_visit_lt {id : UInt32} {e : Expression} (he : table[id.toNat]? = some e)
    (hid : id ∉ seen) : unnumbered table.length ((seen ++ [id]).map UInt32.toNat)
      < unnumbered table.length (seen.map UInt32.toNat) := by
  rw [List.map_append]
  exact unnumbered_append_lt (List.getElem?_eq_some_iff.1 he).1 fun hmem =>
    hid (mem_map_toNat.1 hmem)

/-- The references that have been met when a counter has been visited, with those in `seen` met
before. They are given as a list that goes on from `seen`, without which the recursion could not be
seen to end. -/
def visitFrom (table : List Expression) (seen : List UInt32) :
    Counter → { seen' : List UInt32 // seen <+: seen' }
  | .expression id =>
    if _hid : id ∈ seen then ⟨seen, List.prefix_rfl⟩
    else
      match _he : table[id.toNat]? with
      | none => ⟨seen ++ [id], List.prefix_append ..⟩
      | some e =>
        match visitFrom table (seen ++ [id]) e.lhs with
        | ⟨left, hleft⟩ =>
          match visitFrom table left e.rhs with
          | ⟨right, hright⟩ => ⟨right, (List.prefix_append ..).trans (hleft.trans hright)⟩
  | .zero => ⟨seen, List.prefix_rfl⟩
  | .physical _ => ⟨seen, List.prefix_rfl⟩
termination_by unnumbered table.length (seen.map UInt32.toNat)
decreasing_by
  · exact unnumbered_visit_lt ‹_› ‹_›
  · exact Nat.lt_of_le_of_lt (unnumbered_mono (List.map_subset _ hleft.subset))
      (unnumbered_visit_lt ‹_› ‹_›)

/-- The list of `visitFrom`. -/
def preorderFrom (table : List Expression) (seen : List UInt32) (c : Counter) : List UInt32 :=
  (visitFrom table seen c).1

/-- The references that are met when the counters of a mapping's regions are visited in turn, in the
order in which they are met. -/
def Mapping.preorder (mapping : Mapping) : List UInt32 :=
  mapping.regionCounters.foldl (preorderFrom mapping.expressions) []

theorem preorderFrom_zero : preorderFrom table seen .zero = seen := by
  rw [preorderFrom, visitFrom]

theorem preorderFrom_physical (id : UInt32) : preorderFrom table seen (.physical id) = seen := by
  rw [preorderFrom, visitFrom]

/-- **The recursion**: an expression that has no number yet gets the next one, then its left operand
is visited, then its right one. -/
theorem preorderFrom_expression (id : UInt32) : preorderFrom table seen (.expression id)
    = if id ∈ seen then seen
      else match table[id.toNat]? with
        | none => seen ++ [id]
        | some e => preorderFrom table (preorderFrom table (seen ++ [id]) e.lhs) e.rhs := by
  rw [preorderFrom, visitFrom]
  split
  · rfl
  · split
    · next hnone => simp only [hnone]
    · next e he => simp only [he, preorderFrom]

/-- A visit goes on from what has been met before. -/
theorem prefix_preorderFrom : seen <+: preorderFrom table seen c := (visitFrom table seen c).2

/-- So do visits in a row. -/
theorem prefix_foldl_preorderFrom (pending : List Counter) :
    seen <+: pending.foldl (preorderFrom table) seen := by
  induction pending generalizing seen with
  | nil => exact List.prefix_rfl
  | cons c pending ih => exact prefix_preorderFrom.trans ih

/-- **Induction on the recursion**: what holds of a visit that meets nothing new, of one that meets
a reference out of the table, and of one that goes on to operands if it holds of theirs, holds of
all visits. -/
theorem preorderFrom_induction {P : List UInt32 → Counter → List UInt32 → Prop}
    (pass : ∀ seen c, (∀ id, c = .expression id → id ∈ seen) → P seen c seen)
    (unknown : ∀ seen id, id ∉ seen → table[id.toNat]? = none →
      P seen (.expression id) (seen ++ [id]))
    (enter : ∀ seen id e left right, id ∉ seen → table[id.toNat]? = some e →
      seen ++ [id] <+: left → P (seen ++ [id]) e.lhs left →
      left <+: right → P left e.rhs right → P seen (.expression id) right)
    (seen : List UInt32) (c : Counter) : P seen c (preorderFrom table seen c) := by
  induction seen, c using visitFrom.induct table with
  | case1 seen id hid =>
      rw [preorderFrom_expression, if_pos hid]
      exact pass seen _ fun id' heq => Counter.expression.inj heq ▸ hid
  | case2 seen id hid hnone =>
      rw [preorderFrom_expression, if_neg hid, hnone]
      exact unknown seen id hid hnone
  | case3 seen id hid e he left hleft hlhs right hright hrhs ihlhs ihrhs =>
      have hl : preorderFrom table (seen ++ [id]) e.lhs = left := congrArg Subtype.val hlhs
      have hr : preorderFrom table left e.rhs = right := congrArg Subtype.val hrhs
      rw [hl] at ihlhs
      rw [hr] at ihrhs
      have hresult : preorderFrom table seen (.expression id) = right := by
        simp only [preorderFrom_expression, if_neg hid, he, hl, hr]
      rw [hresult]
      exact enter seen id e left right hid he hleft ihlhs hright ihrhs
  | case4 seen =>
      rw [preorderFrom_zero]
      exact pass seen _ nofun
  | case5 seen id =>
      rw [preorderFrom_physical]
      exact pass seen _ nofun

/-! ### What the recursion lists -/

/-- The operands of an expression are its left and its right one. -/
theorem Expression.mem_operands {e : Expression} : c ∈ e.operands ↔ c = e.lhs ∨ c = e.rhs := by
  simp [operands]

/-- A reference that is met is listed once. -/
theorem nodup_preorderFrom (h : seen.Nodup) : (preorderFrom table seen c).Nodup := by
  have hnew {seen : List UInt32} {id : UInt32} (hid : id ∉ seen) (h : seen.Nodup) :
      (seen ++ [id]).Nodup :=
    List.nodup_append.2 ⟨h, by simp, fun x hx y hy heq => hid (by simp_all)⟩
  refine preorderFrom_induction (P := fun seen _ result => seen.Nodup → result.Nodup)
    ?_ ?_ ?_ seen c h
  · exact fun _ _ _ h => h
  · exact fun _ _ hid _ h => hnew hid h
  · exact fun _ _ _ _ _ hid _ _ ihlhs _ ihrhs h => ihrhs (ihlhs (hnew hid h))

/-- Nothing is met but what is within reach. -/
theorem reaches_of_mem_preorderFrom {counters : List Counter}
    (hc : ∀ id, c = .expression id → Reaches table counters id)
    (h : ∀ id ∈ seen, Reaches table counters id) :
    ∀ id ∈ preorderFrom table seen c, Reaches table counters id := by
  have hnew {seen : List UInt32} {id : UInt32} (hid : Reaches table counters id)
      (h : ∀ id ∈ seen, Reaches table counters id) :
      ∀ id' ∈ seen ++ [id], Reaches table counters id' :=
    List.forall_mem_append.2 ⟨h, List.forall_mem_singleton.2 hid⟩
  refine preorderFrom_induction (P := fun seen c result =>
    (∀ id, c = .expression id → Reaches table counters id) →
      (∀ id ∈ seen, Reaches table counters id) → ∀ id ∈ result, Reaches table counters id)
    ?_ ?_ ?_ seen c hc h
  · exact fun _ _ _ _ h => h
  · exact fun _ id _ _ hc h => hnew (hc id rfl) h
  · intro seen id e left right _ he _ ihlhs _ ihrhs hc h
    have hoperand : ∀ c ∈ e.operands, ∀ id', c = .expression id' → Reaches table counters id' :=
      fun c hmem id' heq => .operand (hc id rfl) he (heq ▸ hmem)
    exact ihrhs (hoperand _ (Expression.mem_operands.2 (.inr rfl)))
      (ihlhs (hoperand _ (Expression.mem_operands.2 (.inl rfl))) (hnew (hc id rfl) h))

/-- A list of references that goes on from another one **lists the operands** of every expression
that it lists behind the other one. -/
def ListsOperands (table : List Expression) (seen result : List UInt32) : Prop :=
  ∀ id ∈ result, id ∉ seen → ∀ e, table[id.toNat]? = some e →
    ∀ id', .expression id' ∈ e.operands → id' ∈ result

/-- A list that goes on from one that lists the operands. -/
theorem ListsOperands.trans {first second third : List UInt32}
    (h : ListsOperands table first second) (h' : ListsOperands table second third)
    (hextends : second <+: third) : ListsOperands table first third := by
  intro id hid hnew e he id' hid'
  by_cases hmem : id ∈ second
  · exact hextends.subset (h id hmem hnew e he id' hid')
  · exact h' id hid hmem e he id' hid'

/-- A visit lists the reference of its counter, and the operands of what it meets. -/
theorem listsOperands_preorderFrom : (∀ id, c = .expression id → id ∈ preorderFrom table seen c) ∧
    ListsOperands table seen (preorderFrom table seen c) := by
  refine preorderFrom_induction (P := fun seen c result =>
    (∀ id, c = .expression id → id ∈ result) ∧ ListsOperands table seen result) ?_ ?_ ?_ seen c
  · exact fun _ _ hc => ⟨hc, fun id hid hnew => absurd hid hnew⟩
  · intro seen id hid hnone
    refine ⟨by rintro _ ⟨⟩; simp, fun id' hid' hnew e he => ?_⟩
    obtain rfl : id' = id := by simpa [hnew] using hid'
    simp [hnone] at he
  · intro seen id e left right hid he hleft ⟨hlhs, hlists⟩ hright ⟨hrhs, hlists'⟩
    have hmem : id ∈ right := hright.subset (hleft.subset (by simp))
    refine ⟨by rintro _ ⟨⟩; exact hmem, fun id' hid' hnew e' he' id'' hid'' => ?_⟩
    by_cases heq : id' = id
    · subst heq
      obtain rfl : e = e' := Option.some.inj (he.symm.trans he')
      rcases Expression.mem_operands.1 hid'' with heq | heq
      · exact hright.subset (hlhs id'' heq.symm)
      · exact hrhs id'' heq.symm
    · exact hlists.trans hlists' hright id' hid' (by simp [hnew, heq]) e' he' id'' hid''

/-- So do visits in a row. -/
theorem listsOperands_foldl (pending : List Counter) :
    (∀ id, .expression id ∈ pending → id ∈ pending.foldl (preorderFrom table) seen) ∧
    ListsOperands table seen (pending.foldl (preorderFrom table) seen) := by
  induction pending generalizing seen with
  | nil => exact ⟨by simp, fun id hid hnew => absurd hid hnew⟩
  | cons c pending ih =>
      obtain ⟨hmet, hlists⟩ := @listsOperands_preorderFrom table seen c
      obtain ⟨hmet', hlists'⟩ := @ih (preorderFrom table seen c)
      have hextends : preorderFrom table seen c
          <+: pending.foldl (preorderFrom table) (preorderFrom table seen c) :=
        prefix_foldl_preorderFrom pending
      refine ⟨fun id hid => ?_, hlists.trans hlists' hextends⟩
      rcases List.mem_cons.1 hid with heq | hid
      · exact hextends.subset (hmet id heq.symm)
      · exact hmet' id hid

namespace Mapping

/-- The recursion lists no reference twice. -/
theorem nodup_preorder (mapping : Mapping) : mapping.preorder.Nodup := by
  rw [preorder]
  exact List.foldlRecOn mapping.regionCounters _ List.nodup_nil
    fun _ h _ _ => nodup_preorderFrom h

/-- **The recursion lists what is within reach of the regions**, and nothing else. -/
theorem mem_preorder_iff {mapping : Mapping} {id : UInt32} :
    id ∈ mapping.preorder ↔ mapping.Reaches id := by
  obtain ⟨hmet, hlists⟩ :=
    @listsOperands_foldl mapping.expressions [] mapping.regionCounters
  constructor
  · rw [preorder]
    refine List.foldlRecOn mapping.regionCounters _
      (motive := fun seen => ∀ id ∈ seen, mapping.Reaches id) (by simp) ?_ id
    exact fun seen h c hc => reaches_of_mem_preorderFrom (fun id heq => .counter (heq ▸ hc)) h
  · intro h
    induction h with
    | counter hid => exact hmet _ hid
    | operand _ he hid ih => exact hlists _ ih (by simp) _ he _ hid

end Mapping

/-! ### The traversal with a stack -/

/-- The first of some references that is out of a table. -/
def firstUnknown (table : List Expression) (ids : List UInt32) : Option UInt32 :=
  ids.find? fun id => table.length ≤ id.toNat

/-- Where the references that have been met are in the table, one more that is out of it is the
first one. -/
theorem firstUnknown_of_prefix {id : UInt32} {result : List UInt32}
    (hseen : ∀ id ∈ seen, id.toNat < table.length) (hid : table.length ≤ id.toNat)
    (hextends : seen ++ [id] <+: result) : firstUnknown table result = some id := by
  obtain ⟨rest, rfl⟩ := hextends
  have hnone : seen.find? (fun id => table.length ≤ id.toNat) = none :=
    List.find?_eq_none.2 fun id' hid' => by simpa using hseen id' hid'
  rw [firstUnknown, List.append_assoc, List.find?_append, hnone, Option.none_or,
    List.singleton_append, List.find?_cons_of_pos (by simpa using hid)]

/-- **The traversal with a stack is the recursion**: it visits what is on the stack in turn, and
stops at the first reference that is out of the table. Induction on the traversal: an expression
that gets a number is replaced on the stack by its operands, which the recursion visits before the
rest of the stack. -/
theorem numberFrom_eq_preorderFrom {pending : List Counter}
    (hseen : ∀ id ∈ seen, id.toNat < table.length) :
    numberFrom table (seen.map UInt32.toNat) pending
      = match firstUnknown table (pending.foldl (preorderFrom table) seen) with
        | some id => .error (.unknownExpression id table.length)
        | none => .ok ((pending.foldl (preorderFrom table) seen).map UInt32.toNat) := by
  generalize horder : seen.map UInt32.toNat = order
  fun_induction numberFrom table order pending generalizing seen with
  | case1 order =>
      have hnone : firstUnknown table seen = none :=
        List.find?_eq_none.2 fun id hid => by simpa using hseen id hid
      simp only [List.foldl_nil, hnone, horder]
  | case2 order id pending hnone =>
      have hout : table.length ≤ id.toNat := List.getElem?_eq_none_iff.1 hnone
      have hid : id ∉ seen := fun hid => Nat.not_lt.2 hout (hseen id hid)
      have hvisit : preorderFrom table seen (.expression id) = seen ++ [id] := by
        simp only [preorderFrom_expression, if_neg hid, hnone]
      rw [List.foldl_cons, hvisit,
        firstUnknown_of_prefix hseen hout (prefix_foldl_preorderFrom pending)]
  | case3 order id pending e he hid ih =>
      have hvisit : preorderFrom table seen (.expression id) = seen := by
        rw [preorderFrom_expression, if_pos (mem_map_toNat.1 (horder ▸ hid))]
      rw [List.foldl_cons, hvisit]
      exact ih hseen horder
  | case4 order id pending e he hid ih =>
      have hid' : id ∉ seen := fun hmem' => hid (horder ▸ mem_map_toNat.2 hmem')
      have hvisit : preorderFrom table seen (.expression id)
          = preorderFrom table (preorderFrom table (seen ++ [id]) e.lhs) e.rhs := by
        simp only [preorderFrom_expression, if_neg hid', he]
      rw [List.foldl_cons, hvisit]
      refine ih ?_ (by rw [List.map_append, horder]; rfl)
      exact List.forall_mem_append.2
        ⟨hseen, List.forall_mem_singleton.2 (List.getElem?_eq_some_iff.1 he).1⟩
  | case5 order pending ih =>
      rw [List.foldl_cons, preorderFrom_zero]
      exact ih hseen horder
  | case6 order id pending ih =>
      rw [List.foldl_cons, preorderFrom_physical]
      exact ih hseen horder

/-- **Expressions are numbered as the recursion lists them**, unless it lists a reference that is
out of the table; then the first one of these is reported. -/
theorem Mapping.expressionOrder_eq_preorder (mapping : Mapping) : mapping.expressionOrder
    = match firstUnknown mapping.expressions mapping.preorder with
      | some id => .error (.unknownExpression id mapping.expressions.length)
      | none => .ok (mapping.preorder.map UInt32.toNat) :=
  @numberFrom_eq_preorderFrom mapping.expressions [] mapping.regionCounters (by simp)

end SourceCoverage
