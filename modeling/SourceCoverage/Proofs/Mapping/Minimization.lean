import SourceCoverage.Proofs.Mapping.Guarded
import SourceCoverage.Proofs.Mapping.Preorder
import SourceCoverage.Proofs.Mapping.RoundTrip

/-!
# Numbering with Marks

The numbering traversal looks for an expression among those that have a number. This is the same
numbering as a *minimizer* does it, which keeps a mark for every expression of the table and goes
over the counters of the regions twice. The first pass marks what is within reach, and finds the
references that are out of the table. The second one takes the expressions that are marked, each as
it is met first, and marks it with its number. A stack holds what is still to be visited, for each
counter anew.

The minimizer looks up marks and expressions by position and counts in 32-bit words. It stops at a
fault where a position is out of range or a number does not fit its word; the main statement says
that this does not happen.

## Main results

* `markFrom_stage`, `gatherFrom_stage`: each pass takes the steps of the numbering traversal.
* `Mapping.minimize_eq`: the minimizer ends as the numbering does.
* `Mapping.minimize_preorder`: the minimizer numbers expressions as the recursion lists them.
-/

namespace SourceCoverage

/-! ### The minimizer -/

/-- What the minimizer knows of an expression. -/
inductive Mark where
  | unused
  /-- Within reach of the regions, and without a number. -/
  | reachable
  | numbered (number : UInt32)
  deriving Repr, DecidableEq

/-- The marks of all expressions, and the expressions that have a number, in the order of their
numbers. -/
structure Minimizer where
  marks : List Mark
  used : List Expression := []
  deriving Repr, DecidableEq

/-- Another mark for an expression leaves one less with the mark that it had. -/
theorem count_set_lt {marks : List Mark} {i : Nat} {mark mark' : Mark} (h : marks[i]? = some mark)
    (hne : mark' ≠ mark) : (marks.set i mark').count mark < marks.count mark := by
  obtain ⟨hlt, hget⟩ := List.getElem?_eq_some_iff.1 h
  have hmem : 0 < marks.count mark := List.count_pos_iff.2 (hget ▸ List.getElem_mem hlt)
  rw [List.count_set hlt]
  simp only [hget, beq_self_eq_true, beq_iff_eq, hne, if_true, if_false]
  omega

/-- **The first pass**, over the counters on the stack: what is met and was not before is marked,
and its operands go on the stack. -/
def markFrom (table : List Expression) (marks : List Mark) :
    (pending : List Counter) → Except Stop (List Mark)
  | [] => .ok marks
  | .expression id :: pending =>
    match table[id.toNat]? with
    | none => .error (.refused (.unknownExpression id table.length))
    | some e =>
      match _h : marks[id.toNat]? with
      | none => .error .outOfRange
      | some .unused =>
        markFrom table (marks.set id.toNat .reachable) (e.lhs :: e.rhs :: pending)
      | some _ => markFrom table marks pending
  | .zero :: pending => markFrom table marks pending
  | .physical _ :: pending => markFrom table marks pending
termination_by pending => (marks.count .unused, pending.length)
decreasing_by
  · exact Prod.Lex.left _ _ (count_set_lt ‹_› (by decide))
  all_goals exact Prod.Lex.right _ (by simp)

/-- **The second pass**, over the counters on the stack: what is met and has no number gets the next
one, and its operands go on the stack. -/
def gatherFrom (table : List Expression) (m : Minimizer) :
    (pending : List Counter) → Except Stop Minimizer
  | [] => .ok m
  | .expression id :: pending =>
    match _h : m.marks[id.toNat]? with
    | none => .error .outOfRange
    | some .reachable =>
      match table[id.toNat]? with
      | none => .error .outOfRange
      | some e =>
        if m.used.length < UInt32.size then
          gatherFrom table
            ⟨m.marks.set id.toNat (.numbered (UInt32.ofNat m.used.length)), m.used ++ [e]⟩
            (e.lhs :: e.rhs :: pending)
        else .error .overflow
    | some _ => gatherFrom table m pending
  | .zero :: pending => gatherFrom table m pending
  | .physical _ :: pending => gatherFrom table m pending
termination_by pending => (m.marks.count .reachable, pending.length)
decreasing_by
  · exact Prod.Lex.left _ _ (count_set_lt ‹_› (by simp))
  all_goals exact Prod.Lex.right _ (by simp)

/-- Minimizes a mapping: both passes over the counters of its regions, one counter after another. -/
def Mapping.minimize (mapping : Mapping) : Except Stop Minimizer := do
  let start := List.replicate mapping.expressions.length Mark.unused
  let marks ← mapping.regionCounters.foldlM
    (fun marks c => markFrom mapping.expressions marks [c]) start
  mapping.regionCounters.foldlM (fun m c => gatherFrom mapping.expressions m [c]) ⟨marks, []⟩

/-- A counter under the new numbers. One without a number is left alone. -/
def Minimizer.adjust (m : Minimizer) : Counter → Counter
  | .expression id =>
    match m.marks[id.toNat]? with
    | some (.numbered number) => .expression number
    | _ => .expression id
  | counter => counter

/-! ### Stages -/

/-- The mark of an expression when those in `order` have their numbers and those in `reached` are
known to be within reach. -/
def markAt (reached order : List Nat) (i : Nat) : Mark :=
  if i ∈ order then .numbered (UInt32.ofNat (order.idxOf i))
  else if i ∈ reached then .reachable
  else .unused

/-- The marks of a table of so many expressions at that time. -/
def stage (size : Nat) (reached order : List Nat) : List Mark :=
  (List.range size).map (markAt reached order)

theorem getElem?_stage {size i : Nat} {reached order : List Nat} (hi : i < size) :
    (stage size reached order)[i]? = some (markAt reached order i) := by
  rw [stage, List.getElem?_map, List.getElem?_range hi, Option.map_some]

/-- The mark of an expression that has its number. -/
theorem getElem?_stage_numbered {size i : Nat} {reached order : List Nat} (hi : i < size)
    (h : i ∈ order) : (stage size reached order)[i]?
      = some (.numbered (UInt32.ofNat (order.idxOf i))) := by
  rw [getElem?_stage hi, markAt, if_pos h]

/-- The mark of one that is within reach and has none. -/
theorem getElem?_stage_reachable {size i : Nat} {reached order : List Nat} (hi : i < size)
    (h : i ∉ order) (h' : i ∈ reached) : (stage size reached order)[i]? = some .reachable := by
  rw [getElem?_stage hi, markAt, if_neg h, if_pos h']

/-- The mark of one that has not been met. -/
theorem getElem?_stage_unused {size i : Nat} {reached order : List Nat} (hi : i < size)
    (h : i ∉ order) (h' : i ∉ reached) : (stage size reached order)[i]? = some .unused := by
  rw [getElem?_stage hi, markAt, if_neg h, if_neg h']

/-- An expression has no number until it is given one. -/
theorem getElem?_stage_ne_numbered {size i : Nat} {reached order : List Nat} (h : i ∉ order)
    (number : UInt32) : (stage size reached order)[i]? ≠ some (.numbered number) := by
  intro hmark
  have hlt := (List.getElem?_eq_some_iff.1 hmark).1
  rw [getElem?_stage (by simpa [stage] using hlt), markAt, if_neg h] at hmark
  split at hmark <;> cases hmark

/-- At the start nothing is known. -/
theorem stage_nil (size : Nat) : stage size [] [] = List.replicate size .unused :=
  List.eq_replicate_iff.2 ⟨by simp [stage], by simp [stage, markAt]⟩

/-- Setting one mark leads to a stage that differs in this mark only. -/
theorem stage_set {size i : Nat} {reached order reached' order' : List Nat}
    (hother : ∀ j, j ≠ i → markAt reached' order' j = markAt reached order j) :
    (stage size reached order).set i (markAt reached' order' i) = stage size reached' order' := by
  refine List.ext_getElem? fun j => ?_
  rw [List.getElem?_set]
  by_cases hj : j < size
  · rw [getElem?_stage hj, getElem?_stage hj]
    split
    · next heq => simp [stage, heq, hj]
    · next hne => rw [hother j fun heq => hne heq.symm]
  · have hout (reached order : List Nat) : (stage size reached order)[j]? = none :=
      List.getElem?_eq_none (by simpa [stage] using hj)
    rw [hout, hout]
    simp only [stage, List.length_map, List.length_range]
    split
    · next heq => rw [if_neg (heq ▸ hj)]
    · rfl

/-- Marking what is met for the first time. -/
theorem stage_set_reachable {size i : Nat} {order : List Nat} :
    (stage size order []).set i .reachable = stage size (order ++ [i]) [] := by
  have hmark : markAt (order ++ [i]) [] i = .reachable := by simp [markAt]
  rw [← hmark]
  exact stage_set fun j hj => by simp [markAt, hj]

/-- Giving a number. -/
theorem stage_set_numbered {size i : Nat} {reached order : List Nat} (hi : i ∉ order) :
    (stage size reached order).set i (.numbered (UInt32.ofNat order.length))
      = stage size reached (order ++ [i]) := by
  have hmark : markAt reached (order ++ [i]) i = .numbered (UInt32.ofNat order.length) := by
    simp [markAt, List.idxOf_append, hi]
  rw [← hmark]
  refine stage_set fun j hj => ?_
  simp only [markAt, List.mem_append, List.mem_singleton, hj, or_false]
  split
  · next hmem => rw [List.idxOf_append_of_mem hmem]
  · rfl

/-! ### The passes and the traversal -/

section Passes

variable {table : List Expression} {order : List Nat} {pending : List Counter}

/-- The numbering traversal visits what is on the stack in turn. -/
theorem numberFrom_append_eq_bind (others : List Counter) :
    numberFrom table order (pending ++ others)
      = numberFrom table order pending >>= fun order' => numberFrom table order' others := by
  fun_induction numberFrom table order pending with
  | case1 order => rfl
  | case2 order id pending hnone =>
      rw [List.cons_append, numberFrom_unknown hnone]
      rfl
  | case3 order id pending e he hid ih =>
      rw [List.cons_append, numberFrom_expression he, if_pos hid, ih]
  | case4 order id pending e he hid ih =>
      rw [List.cons_append, numberFrom_expression he, if_neg hid]
      exact ih
  | case5 order pending ih => rw [List.cons_append, numberFrom, ih]
  | case6 order id pending ih => rw [List.cons_append, numberFrom, ih]

/-- A counter, and then those under it. -/
theorem numberFrom_cons_eq_bind (c : Counter) (others : List Counter) :
    numberFrom table order (c :: others)
      = numberFrom table order [c] >>= fun order' => numberFrom table order' others :=
  @numberFrom_append_eq_bind table order [c] others

/-- It goes on from the numbers that are given. -/
theorem prefix_of_numberFrom {order' : List Nat} (h : numberFrom table order pending = .ok order') :
    order <+: order' := by
  fun_induction numberFrom table order pending with
  | case1 order => exact Except.ok.inj h ▸ List.prefix_rfl
  | case2 order id pending hnone => cases h
  | case3 order id pending e he hid ih => exact ih h
  | case4 order id pending e he hid ih => exact (List.prefix_append ..).trans (ih h)
  | case5 order pending ih => exact ih h
  | case6 order id pending ih => exact ih h

/-- The step of the first pass at an expression. -/
theorem markFrom_expression {marks : List Mark} {id : UInt32} {e : Expression} {mark : Mark}
    (he : table[id.toNat]? = some e) (hmark : marks[id.toNat]? = some mark) :
    markFrom table marks (.expression id :: pending)
      = if mark = .unused then
          markFrom table (marks.set id.toNat .reachable) (e.lhs :: e.rhs :: pending)
        else markFrom table marks pending := by
  rw [markFrom, he]
  simp only
  split
  · simp_all
  · next heq => simp_all
  · next mark' hne heq =>
      obtain rfl : mark = mark' := Option.some.inj (hmark.symm.trans heq)
      rw [if_neg hne]

/-- **The first pass takes the steps of the numbering traversal**, with a mark for every number. -/
theorem markFrom_stage : markFrom table (stage table.length order []) pending
    = ((numberFrom table order pending).map (stage table.length · [])).mapError .refused := by
  fun_induction numberFrom table order pending with
  | case1 order => rw [markFrom]; rfl
  | case2 order id pending hnone => rw [markFrom, hnone]; rfl
  | case3 order id pending e he hid ih =>
      have hlt := (List.getElem?_eq_some_iff.1 he).1
      have hmark := getElem?_stage_reachable hlt List.not_mem_nil hid
      rw [markFrom_expression he hmark, if_neg (by decide)]
      exact ih
  | case4 order id pending e he hid ih =>
      have hlt := (List.getElem?_eq_some_iff.1 he).1
      have hmark := getElem?_stage_unused hlt List.not_mem_nil hid
      rw [markFrom_expression he hmark, if_pos rfl, stage_set_reachable]
      exact ih
  | case5 order pending ih => rw [markFrom]; exact ih
  | case6 order id pending ih => rw [markFrom]; exact ih

/-- The first pass over all counters, with a stack for each. -/
theorem foldlM_markFrom (counters : List Counter) :
    counters.foldlM (fun marks c => markFrom table marks [c]) (stage table.length order [])
      = ((numberFrom table order counters).map (stage table.length · [])).mapError .refused := by
  induction counters generalizing order with
  | nil => rw [numberFrom]; rfl
  | cons c counters ih =>
      rw [List.foldlM_cons, markFrom_stage, numberFrom_cons_eq_bind c counters]
      cases numberFrom table order [c] with
      | error e => rfl
      | ok order' => exact ih

/-- The second pass passes over an expression that has a number. -/
theorem gatherFrom_numbered {m : Minimizer} {id number : UInt32}
    (hmark : m.marks[id.toNat]? = some (.numbered number)) :
    gatherFrom table m (.expression id :: pending) = gatherFrom table m pending := by
  rw [gatherFrom]
  split <;> simp_all

/-- The second pass gives a number to an expression that is marked. -/
theorem gatherFrom_reachable {m : Minimizer} {id : UInt32} {e : Expression}
    (hmark : m.marks[id.toNat]? = some .reachable) (he : table[id.toNat]? = some e)
    (hlength : m.used.length < UInt32.size) :
    gatherFrom table m (.expression id :: pending)
      = gatherFrom table
          ⟨m.marks.set id.toNat (.numbered (UInt32.ofNat m.used.length)), m.used ++ [e]⟩
          (e.lhs :: e.rhs :: pending) := by
  rw [gatherFrom]
  split
  · simp_all
  · rw [he]
    exact if_pos hlength
  · simp_all

/-- The expressions at positions of the table are as many as the positions. -/
theorem length_filterMap_of_known (h : ∀ i ∈ order, i < table.length) :
    (order.filterMap (table[·]?)).length = order.length := by
  rw [List.length_filterMap_eq_countP, List.countP_eq_length]
  exact fun i hi => by simpa using h i hi

variable {reached order' : List Nat}

/-- A traversal has room for the next number if it ends with room for all of them. -/
theorem length_lt_of_numberFrom {i : Nat}
    (hrun : numberFrom table (order ++ [i]) pending = .ok order')
    (hlength : order'.length ≤ UInt32.size) : order.length < UInt32.size := by
  have hle := (prefix_of_numberFrom hrun).length_le
  rw [List.length_append, List.length_singleton] at hle
  omega

/-- Positions of the table are **saturated** if with an expression they contain its operands. -/
def Saturated (table : List Expression) (reached : List Nat) : Prop :=
  ∀ i ∈ reached, ∀ e, table[i]? = some e →
    ∀ id, .expression id ∈ e.operands → id.toNat ∈ reached

/-- So are those that the numbering traversal ends with. -/
theorem Traversal.saturated {counters : List Counter} (h : Traversal table counters order []) :
    Saturated table order :=
  fun i hi e he id hid => (h.operandsMet i hi e he id hid).resolve_right List.not_mem_nil

/-- An expression on the stack may be replaced by its operands. -/
theorem Saturated.replace (h : Saturated table reached) {id : UInt32} {e : Expression}
    (hpending : ∀ id', .expression id' ∈ Counter.expression id :: pending → id'.toNat ∈ reached)
    (he : table[id.toNat]? = some e) :
    ∀ id', .expression id' ∈ e.lhs :: e.rhs :: pending → id'.toNat ∈ reached := by
  intro id' hmem
  rcases List.mem_append.1 (show _ ∈ e.operands ++ pending from hmem) with hmem | hmem
  · exact h _ (hpending id (List.mem_cons_self ..)) e he id' hmem
  · exact hpending id' (List.mem_cons_of_mem _ hmem)

/-- **The second pass takes the steps of the numbering traversal**, if what is on the stack has been
marked as well as the operands of what has been marked. -/
theorem gatherFrom_stage (hpending : ∀ id, .expression id ∈ pending → id.toNat ∈ reached)
    (hsaturated : Saturated table reached) (hrun : numberFrom table order pending = .ok order')
    (hknown : ∀ i ∈ order', i < table.length) (hlength : order'.length ≤ UInt32.size) :
    gatherFrom table ⟨stage table.length reached order, order.filterMap (table[·]?)⟩ pending
      = .ok ⟨stage table.length reached order', order'.filterMap (table[·]?)⟩ := by
  fun_induction numberFrom table order pending with
  | case1 order =>
      obtain rfl := Except.ok.inj hrun
      rw [gatherFrom]
  | case2 order id pending hnone => cases hrun
  | case3 order id pending e he hid ih =>
      have hlt := (List.getElem?_eq_some_iff.1 he).1
      rw [gatherFrom_numbered (getElem?_stage_numbered hlt hid)]
      exact ih (fun id hmem => hpending id (List.mem_cons_of_mem _ hmem)) hrun
  | case4 order id pending e he hid ih =>
      have hlt := (List.getElem?_eq_some_iff.1 he).1
      have hmark := getElem?_stage_reachable hlt hid (hpending id (List.mem_cons_self ..))
      have hused : (order.filterMap (table[·]?)).length = order.length :=
        length_filterMap_of_known fun i hi =>
          hknown i ((prefix_of_numberFrom hrun).subset (List.mem_append_left _ hi))
      have hroom : (order.filterMap (table[·]?)).length < UInt32.size :=
        hused ▸ length_lt_of_numberFrom hrun hlength
      have hnext := ih (hsaturated.replace hpending he) hrun
      rw [List.filterMap_append, List.filterMap_cons_some he, List.filterMap_nil] at hnext
      rw [gatherFrom_reachable hmark he hroom, hused, stage_set_numbered hid]
      exact hnext
  | case5 order pending ih =>
      rw [gatherFrom]
      exact ih (fun id hmem => hpending id (List.mem_cons_of_mem _ hmem)) hrun
  | case6 order id pending ih =>
      rw [gatherFrom]
      exact ih (fun id hmem => hpending id (List.mem_cons_of_mem _ hmem)) hrun

/-- The second pass over all counters, with a stack for each. -/
theorem foldlM_gatherFrom {counters : List Counter}
    (hcounters : ∀ id, .expression id ∈ counters → id.toNat ∈ reached)
    (hsaturated : Saturated table reached)
    (hrun : numberFrom table order counters = .ok order') (hknown : ∀ i ∈ order', i < table.length)
    (hlength : order'.length ≤ UInt32.size) :
    counters.foldlM (fun m c => gatherFrom table m [c])
        ⟨stage table.length reached order, order.filterMap (table[·]?)⟩
      = .ok ⟨stage table.length reached order', order'.filterMap (table[·]?)⟩ := by
  induction counters generalizing order with
  | nil =>
      rw [numberFrom] at hrun
      obtain rfl := Except.ok.inj hrun
      rfl
  | cons c counters ih =>
      rw [numberFrom_cons_eq_bind c counters] at hrun
      cases hfirst : numberFrom table order [c] with
      | error e =>
          rw [hfirst] at hrun
          cases hrun
      | ok between =>
          rw [hfirst] at hrun
          replace hrun : numberFrom table between counters = .ok order' := hrun
          have hextends := prefix_of_numberFrom hrun
          have hfirstCounter : ∀ id, .expression id ∈ [c] → id.toNat ∈ reached := by
            intro id hmem
            obtain rfl := List.mem_singleton.1 hmem
            exact hcounters id (List.mem_cons_self ..)
          have hgather := gatherFrom_stage hfirstCounter hsaturated hfirst
            (fun i hi => hknown i (hextends.subset hi))
            (Nat.le_trans hextends.length_le hlength)
          rw [List.foldlM_cons, hgather]
          exact ih (fun id hmem => hcounters id (List.mem_cons_of_mem _ hmem)) hrun

end Passes

/-! ### The minimizer and the numbering -/

namespace Mapping

/-- **The minimizer ends as the numbering does**: with a number for every expression within reach,
or refusing the reference that the numbering refuses. It does not come to a fault. -/
theorem minimize_eq (mapping : Mapping) : mapping.minimize
    = match mapping.expressionOrder with
      | .error e => .error (.refused e)
      | .ok order => .ok ⟨stage mapping.expressions.length order order,
          order.filterMap (mapping.expressions[·]?)⟩ := by
  rw [minimize, ← stage_nil, foldlM_markFrom]
  cases horder : mapping.expressionOrder with
  | error e =>
      rw [expressionOrder] at horder
      rw [horder]
      rfl
  | ok order =>
      have h := traversal_expressionOrder horder
      have hcounters : ∀ id, .expression id ∈ mapping.regionCounters → id.toNat ∈ order :=
        fun id hid => (h.countersMet id hid).resolve_right (by simp)
      have hgather :=
        foldlM_gatherFrom hcounters h.saturated horder h.known (length_expressionOrder_le horder)
      rw [expressionOrder] at horder
      rw [horder]
      exact hgather

/-- When the minimizer has ended, it changes counters as the numbering does. -/
theorem adjust_stage {mapping : Mapping} {order : List Nat} {used : List Expression}
    (h : mapping.expressionOrder = .ok order) (c : Counter) :
    (Minimizer.mk (stage mapping.expressions.length order order) used).adjust c
      = c.renumber order := by
  cases c with
  | zero => rfl
  | physical id => rfl
  | expression id =>
      by_cases hid : id.toNat ∈ order
      · have hlt := (traversal_expressionOrder h).known _ hid
        have hreach : ∀ id', Counter.expression id = .expression id' → mapping.Reaches id' := by
          rintro _ ⟨⟩
          exact (mem_expressionOrder_iff h).1 hid
        rw [renumber_eq_rename h hreach]
        simp only [Minimizer.adjust, getElem?_stage_numbered hlt hid, Counter.rename, newNumber]
      · have hnone : order.idxOf? id.toNat = none := List.idxOf?_eq_none_iff.2 hid
        simp only [Counter.renumber, hnone]
        rw [Minimizer.adjust]
        split
        · next number heq => exact absurd heq (getElem?_stage_ne_numbered hid number)
        · rfl

/-- What a minimizer of a mapping has to end with: the expressions that the recursion lists, in its
order, and for each of them the place in the list as its number. The mapping's canonical form has
the same numbers. -/
structure Minimizes (mapping : Mapping) (m : Minimizer) : Prop where
  used : List.Forall₂ (fun id e => mapping.expressions[id.toNat]? = some e) mapping.preorder m.used
  adjust : ∀ id, mapping.Reaches id → ∃ number, m.adjust (.expression id) = .expression number ∧
    mapping.preorder[number.toNat]? = some id
  numbering : mapping.expressionOrder = .ok (mapping.preorder.map UInt32.toNat) ∧
    ∀ c, m.adjust c = c.renumber (mapping.preorder.map UInt32.toNat)

/-- A reference within reach stands in the list at its number. -/
theorem getElem?_preorder_newNumber {mapping : Mapping} {id : UInt32}
    (h : mapping.expressionOrder = .ok (mapping.preorder.map UInt32.toNat))
    (hid : mapping.Reaches id) :
    mapping.preorder[(newNumber (mapping.preorder.map UInt32.toNat) id).toNat]? = some id := by
  obtain ⟨hnumber, hlt⟩ := toNat_newNumber h hid
  have hplace := List.getElem?_eq_getElem hlt
  rw [List.getElem_idxOf hlt, List.getElem?_map] at hplace
  obtain ⟨id', hid', heq⟩ := Option.map_eq_some_iff.1 hplace
  rw [hnumber, hid', UInt32.toNat_inj.1 heq]

/-- The expressions at the places of a list of references that are all in the table. -/
theorem forall₂_filterMap {table : List Expression} {ids : List UInt32}
    (h : ∀ id ∈ ids, id.toNat < table.length) :
    List.Forall₂ (fun id e => table[id.toNat]? = some e) ids
      ((ids.map UInt32.toNat).filterMap (table[·]?)) := by
  induction ids with
  | nil => exact .nil
  | cons id ids ih =>
      obtain ⟨hid, hids⟩ := List.forall_mem_cons.1 h
      have he := List.getElem?_eq_getElem hid
      rw [List.map_cons, List.filterMap_cons_some he]
      exact .cons he (ih hids)

/-- **The minimizer is the recursion.** What the recursion lists is what is within reach of the
regions, each reference once. If all of it is in the table, the minimizer ends with the expressions
in the order of the list; otherwise it refuses the first reference in the list that is out of the
table. -/
theorem minimize_preorder (mapping : Mapping) :
    (mapping.preorder.Nodup ∧ ∀ id, id ∈ mapping.preorder ↔ mapping.Reaches id) ∧
    ((∀ id, mapping.Reaches id → id.toNat < mapping.expressions.length) →
      ∃ m, mapping.minimize = .ok m ∧ mapping.Minimizes m) ∧
    ((∃ id, mapping.Reaches id ∧ mapping.expressions.length ≤ id.toNat) →
      ∃ id, firstUnknown mapping.expressions mapping.preorder = some id ∧
        mapping.minimize
          = .error (.refused (.unknownExpression id mapping.expressions.length)) ∧
        mapping.expressionOrder = .error (.unknownExpression id mapping.expressions.length)) := by
  have horder := mapping.expressionOrder_eq_preorder
  have hminimize := mapping.minimize_eq
  refine ⟨⟨mapping.nodup_preorder, fun id => mem_preorder_iff⟩, fun hknown => ?_, ?_⟩
  · have hknown' : ∀ id ∈ mapping.preorder, id.toNat < mapping.expressions.length :=
      fun id hid => hknown id (mem_preorder_iff.1 hid)
    have hnone : firstUnknown mapping.expressions mapping.preorder = none :=
      List.find?_eq_none.2 fun id hid => by simpa using hknown' id hid
    simp only [hnone] at horder
    simp only [horder] at hminimize
    refine ⟨_, hminimize, forall₂_filterMap hknown', fun id hid => ?_, horder,
      adjust_stage horder⟩
    refine ⟨newNumber (mapping.preorder.map UInt32.toNat) id, ?_,
      getElem?_preorder_newNumber horder hid⟩
    rw [adjust_stage horder, renumber_eq_rename horder (by rintro _ ⟨⟩; exact hid)]
    rfl
  · rintro ⟨id, hid, hout⟩
    have hsome : (firstUnknown mapping.expressions mapping.preorder).isSome :=
      List.find?_isSome.2 ⟨id, mem_preorder_iff.2 hid, by simpa using hout⟩
    obtain ⟨first, hfirst⟩ := Option.isSome_iff_exists.1 hsome
    simp only [hfirst] at horder
    simp only [horder] at hminimize
    exact ⟨first, hfirst, hminimize, horder⟩

/-- A mapping with a cycle of three expressions, one of which waits on the stack three times before
it gets its number, and a fourth expression that leads out of the table. -/
def tangled : Mapping where
  files := [0]
  expressions := [⟨.add, .expression 2, .expression 1⟩, ⟨.subtract, .expression 0, .physical 3⟩,
    ⟨.add, .expression 1, .expression 1⟩, ⟨.subtract, .expression 9, .zero⟩]
  regions := [⟨.code (.expression 0), 0, ⟨1, 1, 1, 5⟩⟩]

/-- The same with a region that reaches the fourth expression. -/
def dangling : Mapping :=
  { tangled with regions := tangled.regions ++ [⟨.gap (.expression 3), 0, ⟨2, 1, 2, 5⟩⟩] }

/-- The cycle is numbered from the left, and what leads out of the table is refused once it is
reached. -/
theorem minimize_preorder_tangled : tangled.preorder = [0, 2, 1] ∧
    (∀ id, tangled.Reaches id → id.toNat < 4) ∧
    (∃ m, tangled.minimize = .ok m ∧ tangled.Minimizes m) ∧
    dangling.preorder = [0, 2, 1, 3, 9] ∧ (dangling.Reaches 9 ∧ 4 ≤ (9 : UInt32).toNat) ∧
    dangling.minimize = .error (.refused (.unknownExpression 9 4)) := by
  have htangled : tangled.preorder = [0, 2, 1] := by cbv
  have hdangling : dangling.preorder = [0, 2, 1, 3, 9] := by cbv
  obtain ⟨⟨-, hmem⟩, hknown, -⟩ := minimize_preorder tangled
  obtain ⟨⟨-, hmem'⟩, -, hunknown⟩ := minimize_preorder dangling
  have hreach : ∀ id, tangled.Reaches id → id.toNat < 4 := by
    intro id hid
    have hlisted : id ∈ [0, 2, 1] := htangled ▸ (hmem id).2 hid
    simp only [List.mem_cons, List.not_mem_nil, or_false] at hlisted
    rcases hlisted with rfl | rfl | rfl <;> decide
  have hout : dangling.Reaches 9 := (hmem' 9).1 (hdangling ▸ by decide)
  refine ⟨htangled, hreach, hknown hreach, hdangling, ⟨hout, by decide⟩, ?_⟩
  obtain ⟨id, hfirst, hrefused, -⟩ := hunknown ⟨9, hout, by decide⟩
  rw [hdangling] at hfirst
  obtain rfl : 9 = id := Option.some.inj hfirst
  exact hrefused

end Mapping

end SourceCoverage
