import Mathlib.Data.List.Perm.Subperm
import Mathlib.Data.Set.Function
import SourceCoverage.Proofs.Mapping.Rereading
import SourceCoverage.Proofs.Mapping.Validity

/-!
# The Round Trip of Mappings

Encoding a mapping and decoding the bytes gives the canonical form of the mapping: its files as
they are, its regions in order, and of its expressions those within reach of the regions, under
new numbers. The numbers are given by a bijection, so that nothing else about the expressions is
changed, whatever operands they share and whatever cycles they form.

The canonical form is presentable (`Mapping.presentable_arrange`), which is all that the decoder
asks for; what remains is to say how the canonical form relates to the mapping.

## Main results

* `Mapping.presentable_arrange`: the canonical form of a mapping is read back as it is.
* `Mapping.decode_encode`: the round trip.
-/

namespace SourceCoverage

/-- A counter whose expression, if it refers to one, has another number. -/
def Counter.rename (f : UInt32 → UInt32) : Counter → Counter
  | .expression id => .expression (f id)
  | counter => counter

/-- The new number of an expression: its place in the order of numbering. -/
def newNumber (order : List Nat) (id : UInt32) : UInt32 := UInt32.ofNat (order.idxOf id.toNat)

/-- Replacements that agree on the counters of a region's kind do the same to it. -/
theorem RegionKind.mapCounters_congr {f g : Counter → Counter} {kind : RegionKind}
    (h : ∀ c ∈ kind.counters, f c = g c) : kind.mapCounters f = kind.mapCounters g := by
  cases kind <;> simp_all [mapCounters, counters]

namespace Mapping

variable {mapping : Mapping} {order : List Nat}

/-! ### New numbers -/

/-- A numbering takes no more than the 32-bit words. -/
theorem length_expressionOrder_le (h : mapping.expressionOrder = .ok order) :
    order.length ≤ UInt32.size := by
  have hsub : order ⊆ List.range UInt32.size := fun i hi =>
    List.mem_range.2 (getElem?_of_mem_expressionOrder h hi).1
  simpa using (List.subperm_of_subset (nodup_expressionOrder h) hsub).length_le

/-- The new number of an expression within reach is its place in the order. -/
theorem toNat_newNumber (h : mapping.expressionOrder = .ok order) {id : UInt32}
    (hid : mapping.Reaches id) :
    (newNumber order id).toNat = order.idxOf id.toNat ∧ order.idxOf id.toNat < order.length := by
  have hlt : order.idxOf id.toNat < order.length :=
    List.idxOf_lt_length_of_mem ((mem_expressionOrder_iff h).2 hid)
  refine ⟨?_, hlt⟩
  exact UInt32.toNat_ofNat_of_lt' (Nat.lt_of_lt_of_le hlt (length_expressionOrder_le h))

/-- A counter within reach gets its new number. -/
theorem renumber_eq_rename (h : mapping.expressionOrder = .ok order) {counter : Counter}
    (hcounter : ∀ id, counter = .expression id → mapping.Reaches id) :
    counter.renumber order = counter.rename (newNumber order) := by
  cases counter with
  | zero => rfl
  | physical _ => rfl
  | expression id =>
      have hlt := (toNat_newNumber h (hcounter id rfl)).2
      have hidx : order.idxOf? id.toNat = some (order.idxOf id.toNat) := by
        refine List.idxOf?_eq_some_iff.2 ⟨hlt, List.getElem_idxOf hlt, fun j hj heq => ?_⟩
        have hfirst := (nodup_expressionOrder h).idxOf_getElem j (Nat.lt_trans hj hlt)
        rw [heq] at hfirst
        omega
      simp only [Counter.renumber, Counter.rename, newNumber, hidx]

/-- The new numbers count through the expressions within reach. -/
theorem bijOn_newNumber (h : mapping.expressionOrder = .ok order) :
    Set.BijOn (fun id => (newNumber order id).toNat) {id | mapping.Reaches id}
      (Set.Iio order.length) := by
  refine ⟨?_, ?_, ?_⟩
  · intro id hid
    obtain ⟨hnumber, hlt⟩ := toNat_newNumber h hid
    simpa [hnumber] using hlt
  · intro id hid id' hid' heq
    simp only [(toNat_newNumber h hid).1, (toNat_newNumber h hid').1] at heq
    have hmem := (mem_expressionOrder_iff h).2 hid
    exact UInt32.toNat_inj.1 ((List.idxOf_inj hmem).1 heq)
  · intro k hk
    have hlt : k < order.length := hk
    obtain ⟨id, hid, hreach⟩ :=
      (traversal_expressionOrder h).reached _ (List.getElem_mem hlt)
    refine ⟨id, hreach, ?_⟩
    simp only [(toNat_newNumber h hreach).1, hid]
    exact List.Nodup.idxOf_getElem (nodup_expressionOrder h) k hlt

/-! ### The canonical form -/

/-- The expression of a new number is that of the old one, with its operands renumbered. -/
theorem getElem?_expressions_arrange (h : mapping.expressionOrder = .ok order) (k : Nat) :
    (mapping.arrange order).expressions[k]? = (order[k]?.bind (mapping.expressions[·]?)).map
      (·.mapOperands (Counter.renumber order)) := by
  have hknown : ∀ i ∈ order, (mapping.expressions[i]?).isSome := fun i hi => by
    obtain ⟨-, e, he⟩ := getElem?_of_mem_expressionOrder h hi
    simp [he]
  have hget : ∀ (indices : List Nat) (k : Nat), (∀ i ∈ indices, (mapping.expressions[i]?).isSome) →
      (indices.filterMap (mapping.expressions[·]?))[k]?
        = indices[k]?.bind (mapping.expressions[·]?) := by
    intro indices
    induction indices with
    | nil => simp
    | cons i indices ih =>
        intro k hindices
        obtain ⟨e, he⟩ := Option.isSome_iff_exists.1 (hindices i (List.mem_cons_self ..))
        rw [List.filterMap_cons_some he]
        cases k with
        | zero => simp [he]
        | succ k => simpa using ih k fun i hi => hindices i (List.mem_cons_of_mem _ hi)
  rw [arrange, List.getElem?_map, hget order k hknown]

/-- The canonical form has an expression for every numbered position. -/
theorem length_expressions_arrange (h : mapping.expressionOrder = .ok order) :
    (mapping.arrange order).expressions.length = order.length := by
  refine Nat.le_antisymm ?_ (Nat.le_of_not_lt fun hlt => ?_)
  · rw [arrange, List.length_map]
    exact List.length_filterMap_le ..
  · obtain ⟨-, e, he⟩ := getElem?_of_mem_expressionOrder h (List.getElem_mem hlt)
    have hnone := getElem?_expressions_arrange h (mapping.arrange order).expressions.length
    rw [List.getElem?_eq_none (Nat.le_refl _), List.getElem?_eq_getElem hlt, Option.bind_some,
      he] at hnone
    simp at hnone

/-- The expression within reach of an old number stands at its new number. -/
theorem getElem?_newNumber (h : mapping.expressionOrder = .ok order) {id : UInt32}
    (hid : mapping.Reaches id) :
    ∃ e, mapping.expressions[id.toNat]? = some e ∧
      (mapping.arrange order).expressions[(newNumber order id).toNat]?
        = some (e.mapOperands (Counter.renumber order)) := by
  obtain ⟨hnumber, hlt⟩ := toNat_newNumber h hid
  obtain ⟨-, e, he⟩ := getElem?_of_mem_expressionOrder h ((mem_expressionOrder_iff h).2 hid)
  refine ⟨e, he, ?_⟩
  rw [getElem?_expressions_arrange h, hnumber, List.getElem?_eq_getElem hlt,
    List.getElem_idxOf hlt, Option.bind_some, he, Option.map_some]

/-- Every expression of the canonical form comes from one within reach. -/
theorem exists_of_mem_expressions_arrange (h : mapping.expressionOrder = .ok order)
    {e : Expression} (he : e ∈ (mapping.arrange order).expressions) :
    ∃ id e', mapping.Reaches id ∧ mapping.expressions[id.toNat]? = some e' ∧
      e = e'.mapOperands (Counter.renumber order) := by
  obtain ⟨k, hk⟩ := List.mem_iff_getElem?.1 he
  rw [getElem?_expressions_arrange h] at hk
  obtain ⟨e', he', rfl⟩ := Option.map_eq_some_iff.1 hk
  obtain ⟨i, hi, he'⟩ := Option.bind_eq_some_iff.1 he'
  obtain ⟨id, rfl, hreach⟩ :=
    (traversal_expressionOrder h).reached i (List.mem_of_getElem? hi)
  exact ⟨id, e', hreach, he', rfl⟩

/-- The counters of the canonical form are those of the mapping, renumbered. -/
theorem mem_regionCounters_arrange {counter : Counter} :
    counter ∈ (mapping.arrange order).regionCounters
      ↔ ∃ c ∈ mapping.regionCounters, c.renumber order = counter := by
  simp only [regionCounters, arrange, List.mem_flatMap, List.mem_map, List.mem_mergeSort,
    Region.mapCounters]
  constructor
  · rintro ⟨_, ⟨r, hr, rfl⟩, hcounter⟩
    rw [RegionKind.counters_mapCounters] at hcounter
    obtain ⟨c, hc, rfl⟩ := List.mem_map.1 hcounter
    exact ⟨c, ⟨r, hr, hc⟩, rfl⟩
  · rintro ⟨c, ⟨r, hr, hc⟩, rfl⟩
    refine ⟨_, ⟨r, hr, rfl⟩, ?_⟩
    rw [RegionKind.counters_mapCounters]
    exact List.mem_map_of_mem hc

/-- A renumbered counter within reach refers to an expression of the canonical form. -/
theorem within_renumber (h : mapping.expressionOrder = .ok order) {counter : Counter}
    (hcounter : ∀ id, counter = .expression id → mapping.Reaches id) :
    (counter.renumber order).Within (mapping.arrange order).expressions.length := by
  intro number hnumber
  rw [renumber_eq_rename h hcounter] at hnumber
  cases counter with
  | zero => simp [Counter.rename] at hnumber
  | physical _ => simp [Counter.rename] at hnumber
  | expression id =>
      obtain ⟨htoNat, hlt⟩ := toNat_newNumber h (hcounter id rfl)
      obtain rfl : newNumber order id = number := Counter.expression.inj hnumber
      rw [length_expressions_arrange h, htoNat]
      exact hlt

/-- Something refers to every expression of the canonical form: what its old position was within
reach by, renumbered. -/
theorem mentioned_arrange (h : mapping.expressionOrder = .ok order) {k : Nat}
    (hk : k < (mapping.arrange order).expressions.length) :
    ∃ id : UInt32, id.toNat = k ∧ .expression id ∈
      (mapping.arrange order).expressions.flatMap (·.operands)
        ++ (mapping.arrange order).regionCounters := by
  rw [length_expressions_arrange h] at hk
  obtain ⟨id, hreach, hid⟩ := (bijOn_newNumber h).surjOn hk
  have hrenumber : (Counter.expression id).renumber order = .expression (newNumber order id) :=
    renumber_eq_rename h fun _ heq => Counter.expression.inj heq ▸ hreach
  refine ⟨newNumber order id, hid, List.mem_append.2 ?_⟩
  cases hreach with
  | counter hmem => exact .inr (mem_regionCounters_arrange.2 ⟨_, hmem, hrenumber⟩)
  | @operand parent _ e hparent he hmem =>
      obtain ⟨e', he', hnew⟩ := getElem?_newNumber h hparent
      obtain rfl : e = e' := Option.some.inj (he.symm.trans he')
      refine .inl (List.mem_flatMap.2 ⟨_, List.mem_of_getElem? hnew, ?_⟩)
      have hmap : (e.mapOperands (Counter.renumber order)).operands
          = e.operands.map (Counter.renumber order) := rfl
      rw [hmap, ← hrenumber]
      exact List.mem_map_of_mem hmem

/-- **The canonical form of a mapping is presentable**, if its regions are representable and its
lists are no longer than their counts can tell. -/
theorem presentable_arrange (hfiles : mapping.files.length < UInt32.size)
    (hregions : mapping.regions.length < UInt64.size)
    (hvalid : ∀ r ∈ mapping.regions, r.Representable mapping.files.length)
    (h : mapping.expressionOrder = .ok order) : (mapping.arrange order).Presentable where
  files_lt := hfiles
  regions_lt := by simpa [arrange] using hregions
  ordered := pairwise_regions_arrange mapping order
  region := fun _ hmem => by
    obtain ⟨r, hr, rfl⟩ := List.mem_map.1 hmem
    have hr : r ∈ mapping.regions := List.mem_mergeSort.1 hr
    have hrep := hvalid r hr
    refine ⟨fun counter hcounter => ?_, ?_, hrep.column⟩
    · rw [Region.mapCounters, RegionKind.counters_mapCounters] at hcounter
      obtain ⟨c, hc, rfl⟩ := List.mem_map.1 hcounter
      exact within_renumber h fun id hid =>
        .counter (hid ▸ List.mem_flatMap.2 ⟨r, hr, hc⟩)
    · rcases hrep.forward with hlt | ⟨heq, -⟩
      · exact UInt32.le_of_lt hlt
      · exact UInt32.le_of_eq heq
  file := fun _ hmem => by
    obtain ⟨r, hr, rfl⟩ := List.mem_map.1 hmem
    exact (hvalid r (List.mem_mergeSort.1 hr)).file
  operand := fun _ hmem counter hcounter => by
    obtain ⟨id, e, hreach, he, rfl⟩ := exists_of_mem_expressions_arrange h hmem
    have hcounter : counter ∈ e.operands.map (Counter.renumber order) := hcounter
    obtain ⟨c, hc, rfl⟩ := List.mem_map.1 hcounter
    exact within_renumber h fun id' hid' => .operand hreach he (hid' ▸ hc)
  mentioned := fun k hk => mentioned_arrange h hk

/-! ### The round trip -/

/-- The regions of the canonical form, by the new numbers. -/
theorem regions_arrange (h : mapping.expressionOrder = .ok order) :
    (mapping.arrange order).regions = (mapping.regions.mergeSort Region.le).map
      (·.mapCounters (Counter.rename (newNumber order))) := by
  refine List.map_congr_left fun r hr => ?_
  have hkind : ∀ c ∈ r.kind.counters,
      c.renumber order = c.rename (newNumber order) := fun c hc =>
    renumber_eq_rename h fun id hid =>
      .counter (hid ▸ List.mem_flatMap.2 ⟨r, List.mem_mergeSort.1 hr, hc⟩)
  rw [Region.mapCounters, Region.mapCounters, RegionKind.mapCounters_congr hkind]

/-- `decoded` is the canonical form of `mapping` under the new numbers that `number` gives. -/
structure CanonicalForm (mapping decoded : Mapping) (number : UInt32 → UInt32) : Prop where
  /-- The files are as they are. -/
  files : decoded.files = mapping.files
  /-- The regions are stably sorted, and only the numbers of expressions change in them. -/
  regions : ∃ sorted, Region.SortedAs mapping.regions sorted ∧
    decoded.regions = sorted.map (·.mapCounters (Counter.rename number))
  /-- The numbers of the expressions within reach are the positions of the decoded table. -/
  bijOn : Set.BijOn (fun id => (number id).toNat) {id | mapping.Reaches id}
    (Set.Iio decoded.expressions.length)
  /-- Every expression within reach keeps its operator, and its operands under their numbers. -/
  expression : ∀ id, mapping.Reaches id → ∃ e, mapping.expressions[id.toNat]? = some e ∧
    decoded.expressions[(number id).toNat]? = some (e.mapOperands (Counter.rename number))

/-- The canonical form that the encoder writes is canonical. -/
theorem canonicalForm_arrange (h : mapping.expressionOrder = .ok order) :
    CanonicalForm mapping (mapping.arrange order) (newNumber order) where
  files := rfl
  regions := ⟨_, Region.sortedAs_mergeSort _, regions_arrange h⟩
  bijOn := by
    rw [length_expressions_arrange h]
    exact bijOn_newNumber h
  expression := fun id hid => by
    obtain ⟨e, he, hnew⟩ := getElem?_newNumber h hid
    refine ⟨e, he, ?_⟩
    have hoperand : ∀ c ∈ e.operands, c.renumber order = c.rename (newNumber order) :=
      fun c hc => renumber_eq_rename h fun id' hid' => .operand hid he (hid' ▸ hc)
    rw [hnew, Expression.mapOperands, Expression.mapOperands,
      hoperand e.lhs (by simp [Expression.operands]),
      hoperand e.rhs (by simp [Expression.operands])]

/-- **The round trip.** What a mapping is encoded as is decoded to a canonical form of the
mapping. The list of regions lies in memory, so that a 64-bit word can tell its length. -/
theorem decode_encode {bytes : Bytes} (hfiles : mapping.files.length < UInt32.size)
    (hregions : mapping.regions.length < UInt64.size) (h : mapping.encode = .ok bytes) :
    ∃ decoded number, decode bytes = .ok decoded ∧ CanonicalForm mapping decoded number := by
  obtain ⟨hvalid, order, horder, rfl⟩ := encode_eq_ok_iff.1 h
  exact ⟨mapping.arrange order, newNumber order,
    decode_toBytes (presentable_arrange hfiles hregions hvalid horder),
    canonicalForm_arrange horder⟩

/-- A mapping with a cycle of two expressions that a branch enters, an expression that nothing
reaches, and regions out of order. -/
def cyclic : Mapping where
  files := [7, 7]
  expressions := [⟨.add, .zero, .expression 0⟩, ⟨.subtract, .expression 2, .physical 1⟩,
    ⟨.add, .expression 1, .expression 2⟩]
  regions := [⟨.branch (.expression 2) (.expression 1), 1, ⟨4, 2, 5, 1⟩⟩,
    ⟨.expansion 1, 0, ⟨3, 1, 3, 8⟩⟩, ⟨.gap (.physical 0), 0, ⟨1, 1, 2, 4⟩⟩]

/-- The round trip of the cyclic mapping. -/
theorem decode_encode_cyclic : ∃ bytes decoded number, cyclic.encode = .ok bytes ∧
    decode bytes = .ok decoded ∧ CanonicalForm cyclic decoded number := by
  have hvalid : ∀ r ∈ cyclic.regions, r.check cyclic.files.length = .ok () := by
    simp only [cyclic, List.forall_mem_cons, List.not_mem_nil, false_implies, implies_true,
      and_true]
    exact ⟨rfl, rfl, rfl⟩
  have horder : cyclic.expressionOrder = .ok [2, 1] := by
    rw [expressionOrder, show cyclic.regionCounters
        = [.expression 2, .expression 1, .physical 0] from rfl]
    rw [numberFrom_expression (e := ⟨.add, .expression 1, .expression 2⟩) rfl, if_neg (by decide),
      numberFrom_expression (e := ⟨.subtract, .expression 2, .physical 1⟩) rfl,
      if_neg (by decide)]
    simp [cyclic, numberFrom_expression, numberFrom]
  have hencode : cyclic.encode = .ok (cyclic.arrange [2, 1]).toBytes :=
    encode_eq_ok_iff.2 ⟨fun r hr => Region.check_eq_ok_iff.1 (hvalid r hr), _, horder, rfl⟩
  obtain ⟨decoded, number, hdecode, hform⟩ :=
    decode_encode (by decide) (by decide) hencode
  exact ⟨_, decoded, number, hencode, hdecode, hform⟩

end Mapping

end SourceCoverage
