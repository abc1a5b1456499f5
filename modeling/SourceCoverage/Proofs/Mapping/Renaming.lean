import SourceCoverage.Proofs.Mapping.Permutation

/-!
# What an Encoding Depends On

Of its expression table a mapping uses the entries that its regions reach, and of an entry's
position nothing but that it is not another's. Two mappings that use the same entries under
different positions are therefore encoded alike, whatever else their tables hold: the traversals
of the two tables take the same steps, and give an entry the same number.

A decoded mapping is the mapping that was encoded with its expressions at the positions that the
encoding numbered them with. So it is encoded as it was, if the order of its regions, on which the
numbers depend, was kept.

## Main results

* `Mapping.SameUse.expressionOrder_eq`: two traversals in lock step.
* `Mapping.SameUse.canonical_eq`: mappings of the same use have the same canonical form, or none.
* `Mapping.encode_eq_of_sameUse`: they have the same encoding, or are refused for the same region.
* `Mapping.encode_decoded`: what is decoded from an encoding is encoded to the same bytes.
-/

namespace SourceCoverage

/-- Other counters in a region make no difference to the checks that it has to pass. -/
theorem Region.check_mapCounters (fileCount : Nat) (f : Counter → Counter) (region : Region) :
    (region.mapCounters f).check fileCount = region.check fileCount := by
  obtain ⟨kind, file, span⟩ := region
  cases kind <;> rfl

/-- Nor do they to the place of the region among others. -/
theorem Region.mergeSort_mapCounters (f : Counter → Counter) (regions : List Region) :
    (regions.map (·.mapCounters f)).mergeSort Region.le
      = (regions.mergeSort Region.le).map (·.mapCounters f) :=
  (List.map_mergeSort (f := fun region : Region => region.mapCounters f) fun _ _ _ _ => rfl).symm

/-- The place of an element is that of its image, if no other element has the same image. -/
theorem idxOf?_map {α β : Type} [BEq α] [LawfulBEq α] [BEq β] [LawfulBEq β] {f : α → β} {a : α}
    {xs : List α} (h : ∀ x ∈ xs, f x = f a → x = a) : (xs.map f).idxOf? (f a) = xs.idxOf? a := by
  induction xs with
  | nil => rfl
  | cons x xs ih =>
      obtain ⟨hx, hxs⟩ := List.forall_mem_cons.1 h
      rw [List.map_cons, List.idxOf?_cons, List.idxOf?_cons, ih hxs]
      by_cases heq : x = a
      · rw [heq, beq_self_eq_true, beq_self_eq_true]
      · rw [beq_false_of_ne heq, beq_false_of_ne fun himage => heq (hx himage)]

namespace Mapping

/-! ### The same use -/

/-- The second mapping has the files of the first one, and its regions **use the same
expressions**, at the positions that `position` gives. It says nothing about what else stands in
the second table. -/
structure SameUse (position : UInt32 → UInt32) (mapping mapping' : Mapping) : Prop where
  /-- What the regions of the first mapping reach stands in its table. -/
  known : ∀ id, mapping.Reaches id → id.toNat < mapping.expressions.length
  /-- The new positions are different ones. -/
  injOn : Set.InjOn position {id | mapping.Reaches id}
  files : mapping'.files = mapping.files
  regions : mapping'.regions = mapping.regions.map (·.mapCounters (Counter.rename position))
  /-- At the new position stands the same expression, with the new positions in its operands. -/
  expression : ∀ id e, mapping.Reaches id → mapping.expressions[id.toNat]? = some e →
    mapping'.expressions[(position id).toNat]? = some (e.mapOperands (Counter.rename position))

/-- New positions, as places in a table. -/
def place (position : UInt32 → UInt32) (i : Nat) : Nat := (position (UInt32.ofNat i)).toNat

@[simp] theorem place_toNat (position : UInt32 → UInt32) (id : UInt32) :
    place position id.toNat = (position id).toNat := by
  rw [place, UInt32.ofNat_toNat]

namespace SameUse

variable {mapping mapping' : Mapping} {position : UInt32 → UInt32} {order : List Nat}
  {pending : List Counter}

/-- Among expressions within reach, the new place tells which one it is. -/
theorem eq_of_place_eq (h : SameUse position mapping mapping')
    (horder : ∀ i ∈ order, ∃ id : UInt32, id.toNat = i ∧ mapping.Reaches id) {id : UInt32}
    (hid : mapping.Reaches id) : ∀ i ∈ order, place position i = place position id.toNat →
      i = id.toNat := by
  intro i hi heq
  obtain ⟨id', rfl, hid'⟩ := horder i hi
  rw [place_toNat, place_toNat, UInt32.toNat_inj] at heq
  rw [h.injOn hid' hid heq]

/-- **Two traversals in lock step.** Induction on the traversal of the first table: whatever is
on its stack is within reach, so that the second table has its like at the new place. -/
theorem numberFrom_eq (h : SameUse position mapping mapping')
    (hrun : Traversal mapping.expressions mapping.regionCounters order pending) :
    numberFrom mapping'.expressions (order.map (place position))
        (pending.map (Counter.rename position))
      = (numberFrom mapping.expressions order pending).map (List.map (place position)) := by
  fun_induction numberFrom mapping.expressions order pending with
  | case1 order =>
      rw [List.map_nil, numberFrom]
      rfl
  | case2 order id pending hnone =>
      have hlt := h.known id (hrun.pendingReached id (List.mem_cons_self ..))
      rw [List.getElem?_eq_none_iff] at hnone
      omega
  | case3 order id pending e he hid ih =>
      have hreach : mapping.Reaches id := hrun.pendingReached id (List.mem_cons_self ..)
      have hnumbered : (position id).toNat ∈ order.map (place position) :=
        List.mem_map.2 ⟨_, hid, place_toNat position id⟩
      rw [List.map_cons, Counter.rename, numberFrom_expression (h.expression id e hreach he),
        if_pos hnumbered]
      exact ih (hrun.revisit hid)
  | case4 order id pending e he hid ih =>
      have hreach : mapping.Reaches id := hrun.pendingReached id (List.mem_cons_self ..)
      have hfresh : (position id).toNat ∉ order.map (place position) := by
        intro hmem
        obtain ⟨i, hi, heq⟩ := List.mem_map.1 hmem
        rw [← place_toNat] at heq
        exact hid (h.eq_of_place_eq hrun.reached hreach i hi heq ▸ hi)
      have hnext := ih (hrun.visit he hid)
      rw [List.map_append, List.map_singleton, place_toNat] at hnext
      rw [List.map_cons, Counter.rename, numberFrom_expression (h.expression id e hreach he),
        if_neg hfresh]
      exact hnext
  | case5 order pending ih =>
      change numberFrom _ _ (.zero :: pending.map (Counter.rename position)) = _
      rw [numberFrom]
      exact ih (hrun.pass (by simp))
  | case6 order id pending ih =>
      change numberFrom _ _ (.physical id :: pending.map (Counter.rename position)) = _
      rw [numberFrom]
      exact ih (hrun.pass (by simp))

/-- Renamed counters of the regions are the counters of renamed regions. -/
theorem regionCounters_eq (h : SameUse position mapping mapping') :
    mapping'.regionCounters = mapping.regionCounters.map (Counter.rename position) := by
  rw [regionCounters, h.regions, regionCounters, List.flatMap_map, List.map_flatMap]
  simp only [Region.mapCounters, RegionKind.counters_mapCounters]

/-- The expressions of the same use are numbered in the same order. -/
theorem expressionOrder_eq (h : SameUse position mapping mapping') :
    mapping'.expressionOrder = mapping.expressionOrder.map (List.map (place position)) := by
  rw [expressionOrder, h.regionCounters_eq]
  exact h.numberFrom_eq .start

/-- A counter within reach gets the same number. -/
theorem renumber_rename (h : SameUse position mapping mapping')
    (horder : mapping.expressionOrder = .ok order) {c : Counter}
    (hc : ∀ id, c = .expression id → mapping.Reaches id) :
    (c.rename position).renumber (order.map (place position)) = c.renumber order := by
  cases c with
  | zero => rfl
  | physical id => rfl
  | expression id =>
      have hidx := idxOf?_map (h.eq_of_place_eq (traversal_expressionOrder horder).reached
        (hc id rfl))
      rw [place_toNat] at hidx
      -- without a number a counter is left alone, but this one has one
      obtain ⟨n, hn⟩ := Option.isSome_iff_exists.1
        (List.isSome_idxOf?.2 ((mem_expressionOrder_iff horder).2 (hc id rfl)))
      rw [Counter.rename, Counter.renumber, Counter.renumber, hidx, hn]

/-- The canonical forms have the same expressions. -/
theorem expressions_arrange_eq (h : SameUse position mapping mapping')
    (horder : mapping.expressionOrder = .ok order) :
    (mapping'.arrange (order.map (place position))).expressions
      = (mapping.arrange order).expressions := by
  simp only [arrange, List.filterMap_map, List.map_filterMap]
  refine List.filterMap_congr fun i hi => ?_
  obtain ⟨-, e, he⟩ := getElem?_of_mem_expressionOrder horder hi
  obtain ⟨id, rfl, hid⟩ := (traversal_expressionOrder horder).reached i hi
  have hoperand : ∀ c ∈ e.operands,
      (c.rename position).renumber (order.map (place position)) = c.renumber order := fun c hc =>
    h.renumber_rename horder fun id' hid' => .operand hid he (hid' ▸ hc)
  rw [Function.comp_apply, place_toNat, h.expression id e hid he, he, Option.map_some,
    Option.map_some, Expression.mapOperands, Expression.mapOperands, Expression.mapOperands,
    hoperand _ (by simp [Expression.operands]), hoperand _ (by simp [Expression.operands])]

/-- The canonical forms have the same regions. -/
theorem regions_arrange_eq (h : SameUse position mapping mapping')
    (horder : mapping.expressionOrder = .ok order) :
    (mapping'.arrange (order.map (place position))).regions = (mapping.arrange order).regions := by
  simp only [arrange, h.regions, Region.mergeSort_mapCounters, List.map_map]
  refine List.map_congr_left fun r hr => ?_
  have hmem : r ∈ mapping.regions := List.mem_mergeSort.1 hr
  have hkind : r.kind.mapCounters
        (fun c => (c.rename position).renumber (order.map (place position)))
      = r.kind.mapCounters (Counter.renumber order) :=
    RegionKind.mapCounters_congr fun c hc => h.renumber_rename horder fun id hid =>
      .counter (hid ▸ List.mem_flatMap.2 ⟨r, hmem, hc⟩)
  simp only [Function.comp_apply, Region.mapCounters, RegionKind.mapCounters_mapCounters, hkind]

/-- The canonical forms under corresponding orders are the same. -/
theorem arrange_eq (h : SameUse position mapping mapping')
    (horder : mapping.expressionOrder = .ok order) :
    mapping'.arrange (order.map (place position)) = mapping.arrange order := by
  have hexpressions := h.expressions_arrange_eq horder
  have hregions := h.regions_arrange_eq horder
  rw [arrange, Mapping.mk.injEq]
  exact ⟨h.files, hexpressions, hregions⟩

/-- The same regions are refused, for the same reason. -/
theorem check_eq (h : SameUse position mapping mapping') : mapping'.check = mapping.check := by
  rw [check, h.files, h.regions, check]
  simp only [List.forM_eq_forM, List.forM_map, Region.check_mapCounters]

/-- **Mappings of the same use have the same canonical form**, or are both refused. -/
theorem canonical_eq (h : SameUse position mapping mapping') :
    mapping'.canonical = mapping.canonical := by
  obtain ⟨order, horder⟩ := exists_expressionOrder_iff.2 h.known
  have horder' : mapping'.expressionOrder = .ok (order.map (place position)) := by
    rw [h.expressionOrder_eq, horder]
    rfl
  rw [canonical, canonical, h.check_eq, horder, horder']
  cases mapping.check with
  | error e => rfl
  | ok _ => exact congrArg Except.ok (h.arrange_eq horder)

end SameUse

variable {mapping mapping' : Mapping} {position : UInt32 → UInt32} {order : List Nat}

/-- **Encodings depend on what the regions use**, and on nothing else in the expression table, nor
on where it stands there. Two mappings of the same use are encoded to the same bytes, or refused
with the same error, which is that of the first region that is refused. -/
theorem encode_eq_of_sameUse (h : SameUse position mapping mapping') :
    mapping'.encode = mapping.encode ∧
      ∀ e, mapping.encode = .error e ↔
        ∃ region, Region.FirstRefused mapping.files.length mapping.regions region e := by
  obtain ⟨order, horder⟩ := exists_expressionOrder_iff.2 h.known
  refine ⟨?_, fun e => encode_eq_error_iff horder⟩
  rw [encode_eq, encode_eq, h.canonical_eq]

/-- Two expressions that refer to each other, and that both ways of a branch count. -/
def reciprocal : Mapping where
  files := [3]
  expressions := [⟨.add, .expression 1, .physical 0⟩, ⟨.subtract, .expression 0, .expression 1⟩]
  regions := [⟨.branch (.expression 0) (.expression 1), 0, ⟨1, 1, 2, 9⟩⟩,
    ⟨.gap (.expression 1), 0, ⟨2, 1, 2, 5⟩⟩]

/-- The same two expressions at other positions, in a table with others that lead out of it. -/
def reciprocalAmongOthers : Mapping where
  files := [3]
  expressions := [⟨.subtract, .expression 2, .expression 0⟩, ⟨.add, .expression 9, .zero⟩,
    ⟨.add, .expression 0, .physical 0⟩, ⟨.add, .expression 7, .expression 8⟩]
  regions := [⟨.branch (.expression 2) (.expression 0), 0, ⟨1, 1, 2, 9⟩⟩,
    ⟨.gap (.expression 0), 0, ⟨2, 1, 2, 5⟩⟩]

/-- The regions of `reciprocal` reach its two expressions. -/
theorem reaches_reciprocal {id : UInt32} (h : reciprocal.Reaches id) : id = 0 ∨ id = 1 := by
  induction h with
  | counter hmem => simpa [regionCounters, reciprocal, RegionKind.counters] using hmem
  | operand _ he hmem ih =>
      rcases ih with rfl | rfl
      · obtain rfl := Option.some.inj he
        exact .inr (by simpa [Expression.operands] using hmem)
      · obtain rfl := Option.some.inj he
        simpa [Expression.operands] using hmem

/-- The two mappings use the same expressions. -/
theorem sameUse_reciprocal :
    SameUse (fun id => if id = 0 then 2 else 0) reciprocal reciprocalAmongOthers where
  known := fun id hid => by rcases reaches_reciprocal hid with rfl | rfl <;> decide
  injOn := fun id hid id' hid' => by
    rcases reaches_reciprocal hid with rfl | rfl <;>
      rcases reaches_reciprocal hid' with rfl | rfl <;> decide
  files := rfl
  regions := rfl
  expression := fun id e hid he => by
    rcases reaches_reciprocal hid with rfl | rfl <;> obtain rfl := Option.some.inj he <;> rfl

/-- The reciprocal expressions have an encoding. -/
theorem exists_encode_reciprocal : ∃ bytes, reciprocal.encode = .ok bytes := by
  have hcheck : reciprocal.check = .ok () := rfl
  obtain ⟨order, horder⟩ := exists_expressionOrder_iff.2 sameUse_reciprocal.known
  exact ⟨_, encode_eq_ok_iff.2 ⟨check_eq_ok_iff.1 hcheck, order, horder, rfl⟩⟩

/-- Among others they are encoded to the same bytes. -/
theorem encode_reciprocalAmongOthers :
    SameUse (fun id => if id = 0 then 2 else 0) reciprocal reciprocalAmongOthers ∧
      ∃ bytes, reciprocal.encode = .ok bytes ∧ reciprocalAmongOthers.encode = .ok bytes := by
  obtain ⟨bytes, hbytes⟩ := exists_encode_reciprocal
  exact ⟨sameUse_reciprocal, bytes, hbytes,
    (encode_eq_of_sameUse sameUse_reciprocal).1.trans hbytes⟩

/-! ### Encoding what was decoded -/

/-- The canonical form of a mapping whose regions are in order uses what the mapping uses, at the
positions that are the new numbers. -/
theorem sameUse_arrange (hordered : mapping.regions.Pairwise fun r s => r.le s = true)
    (horder : mapping.expressionOrder = .ok order) :
    SameUse (newNumber order) mapping (mapping.arrange order) where
  known := exists_expressionOrder_iff.1 ⟨order, horder⟩
  injOn := fun id hid id' hid' heq =>
    (bijOn_newNumber horder).injOn hid hid' (congrArg UInt32.toNat heq)
  files := rfl
  regions := by rw [regions_arrange horder, List.mergeSort_of_pairwise hordered]
  expression := fun id e hid he => by
    obtain ⟨e', he', hform⟩ := (canonicalForm_arrange horder).expression id hid
    obtain rfl : e = e' := Option.some.inj (he.symm.trans he')
    exact hform

/-- **What is decoded is encoded as it was.** The encoding of a mapping whose regions are in order
is decoded to a mapping that is its own canonical form, and whose encoding are the same bytes. The
list of regions lies in memory, so that a 64-bit word can tell its length. -/
theorem encode_decoded {bytes : Bytes} (hfiles : mapping.files.length < UInt32.size)
    (hregions : mapping.regions.length < UInt64.size)
    (hordered : mapping.regions.Pairwise fun r s => r.le s = true)
    (h : mapping.encode = .ok bytes) :
    ∃ decoded, decode bytes = .ok decoded ∧ decoded.canonical = .ok decoded ∧
      decoded.encode = .ok bytes := by
  obtain ⟨hvalid, order, horder, rfl⟩ := encode_eq_ok_iff.1 h
  have hcanonical : (mapping.arrange order).canonical = .ok (mapping.arrange order) := by
    rw [(sameUse_arrange hordered horder).canonical_eq]
    exact canonical_eq_ok_iff.2 ⟨hvalid, order, horder, rfl⟩
  refine ⟨mapping.arrange order,
    decode_toBytes (presentable_arrange hfiles hregions hvalid horder), hcanonical, ?_⟩
  rw [encode_eq, hcanonical]
  rfl

/-- The reciprocal expressions are encoded again as they were. -/
theorem encode_decoded_reciprocal :
    (reciprocal.regions.Pairwise fun r s => r.le s = true) ∧
      ∃ bytes decoded, reciprocal.encode = .ok bytes ∧ decode bytes = .ok decoded ∧
        decoded.canonical = .ok decoded ∧ decoded.encode = .ok bytes := by
  have hordered : reciprocal.regions.Pairwise fun r s => r.le s = true := by decide
  obtain ⟨bytes, hbytes⟩ := exists_encode_reciprocal
  obtain ⟨decoded, hdecoded⟩ := encode_decoded (by decide) (by decide) hordered hbytes
  exact ⟨hordered, bytes, decoded, hbytes, hdecoded⟩

end Mapping

end SourceCoverage
