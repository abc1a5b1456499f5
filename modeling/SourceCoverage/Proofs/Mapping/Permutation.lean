import Mathlib.Data.List.Nodup
import SourceCoverage.Proofs.Mapping.Acceptance
import SourceCoverage.Proofs.Mapping.RoundTrip

/-!
# The Order in Which Regions Are Listed

Regions are sorted before they are written. Where no two of them start at the same place, it makes
no difference for the sorted list in which order they were listed. It does make one for the
numbers of the expressions: the traversal that gives them looks at the regions as they are listed.
So listing the regions otherwise leads to the same mapping under other numbers of its expressions,
and to the same bytes where the regions come upon the expressions in the same order.

## Main results

* `Region.SortedAs.eq_of_perm`: without common starts, the regions determine their sorted list.
* `Mapping.encodable_relist_iff`: which mappings are refused does not depend on the listing.
* `Mapping.CanonicalForm.renumberedBy`: two canonical forms differ by the numbers of expressions.
* `Mapping.encode_relist`: what listing the regions otherwise does to the encoding.
-/

namespace SourceCoverage

/-! ### Sorted lists -/

namespace Region

/-- Regions in either order start at the same place. -/
theorem start_eq_of_le_of_le {r s : Region} (hrs : r.le s = true) (hsr : s.le r = true) :
    r.start = s.start := by
  rw [le_iff_toNat] at hrs hsr
  rw [start, start, Prod.mk.injEq, Prod.mk.injEq, ← UInt32.toNat_inj, ← UInt32.toNat_inj,
    ← UInt32.toNat_inj]
  omega

/-- **Regions without common starts determine their sorted list**, however they are listed. -/
theorem SortedAs.eq_of_perm {regions regions' sorted sorted' : List Region}
    (h : SortedAs regions sorted) (h' : SortedAs regions' sorted') (hperm : regions'.Perm regions)
    (hstarts : (regions.map start).Nodup) : sorted' = sorted := by
  have hsorted : sorted'.Perm sorted := (h'.perm.trans hperm).trans h.perm.symm
  refine List.Perm.eq_of_pairwise ?_ h'.ordered h.ordered hsorted
  intro r s hr hs hrs hsr
  have hr : r ∈ regions := (h'.perm.trans hperm).mem_iff.1 hr
  have hs : s ∈ regions := h.perm.mem_iff.1 hs
  exact List.inj_on_of_nodup_map hstarts hr hs (start_eq_of_le_of_le hrs hsr)

end Region

/-! ### Reach -/

/-- From more counters, more is within reach. -/
theorem Reaches.mono {table : List Expression} {counters counters' : List Counter}
    (h : counters ⊆ counters') {id : UInt32} (hid : Reaches table counters id) :
    Reaches table counters' id := by
  induction hid with
  | counter hmem => exact .counter (h hmem)
  | operand _ he hmem ih => exact .operand ih he hmem

/-- Whether a counter refers to an expression. -/
def Counter.isExpression : Counter → Bool
  | .expression _ => true
  | _ => false

/-- Counters that refer to no expression are passed over. -/
theorem numberFrom_append {table : List Expression} {order : List Nat}
    {passed pending : List Counter} (h : ∀ c ∈ passed, ¬c.isExpression = true) :
    numberFrom table order (passed ++ pending) = numberFrom table order pending := by
  induction passed with
  | nil => rfl
  | cons c passed ih =>
      obtain ⟨hc, hpassed⟩ := List.forall_mem_cons.1 h
      rw [List.cons_append, ← ih hpassed]
      cases c with
      | zero => rw [numberFrom]
      | physical id => rw [numberFrom]
      | expression id => exact absurd rfl hc

/-- Only the references to expressions matter to the traversal. Induction on the traversal of one
stack; the other one has the same reference on top, below counters that are passed over. -/
theorem numberFrom_congr {table : List Expression} {order : List Nat}
    {pending pending' : List Counter}
    (h : pending'.filter Counter.isExpression = pending.filter Counter.isExpression) :
    numberFrom table order pending' = numberFrom table order pending := by
  fun_induction numberFrom table order pending generalizing pending' with
  | case1 order =>
      have hnone : ∀ c ∈ pending', ¬c.isExpression = true := List.filter_eq_nil_iff.1 h
      rw [← List.append_nil pending', numberFrom_append hnone, numberFrom]
  | case2 order id pending hnone =>
      obtain ⟨passed, rest, rfl, hpassed, -, -⟩ := List.filter_eq_cons_iff.1 h
      rw [numberFrom_append hpassed, numberFrom_unknown hnone]
  | case3 order id pending e he hid ih =>
      obtain ⟨passed, rest, rfl, hpassed, -, hrest⟩ := List.filter_eq_cons_iff.1 h
      rw [numberFrom_append hpassed, numberFrom_expression he, if_pos hid]
      exact ih hrest
  | case4 order id pending e he hid ih =>
      obtain ⟨passed, rest, rfl, hpassed, -, hrest⟩ := List.filter_eq_cons_iff.1 h
      rw [numberFrom_append hpassed, numberFrom_expression he, if_neg hid]
      refine ih ?_
      simp only [List.filter_cons, hrest]
  | case5 order pending ih => exact ih h
  | case6 order id pending ih => exact ih h

/-! ### Other numbers -/

/-- Replacing counters twice is replacing them once. -/
theorem RegionKind.mapCounters_mapCounters (f g : Counter → Counter) (kind : RegionKind) :
    (kind.mapCounters f).mapCounters g = kind.mapCounters fun c => g (f c) := by
  cases kind <;> rfl

namespace Mapping

/-- The second mapping is the first one with other numbers for its expressions. -/
structure RenumberedBy (number : UInt32 → UInt32) (mapping mapping' : Mapping) : Prop where
  files : mapping'.files = mapping.files
  regions : mapping'.regions = mapping.regions.map (·.mapCounters (Counter.rename number))
  bijOn : Set.BijOn (fun id => (number id).toNat) {id | id.toNat < mapping.expressions.length}
    (Set.Iio mapping'.expressions.length)
  expression : ∀ id e, mapping.expressions[id.toNat]? = some e →
    mapping'.expressions[(number id).toNat]? = some (e.mapOperands (Counter.rename number))

/-- The mapping with its regions listed otherwise. -/
def relist (mapping : Mapping) (regions : List Region) : Mapping := { mapping with regions }

variable {mapping mapping' : Mapping} {regions : List Region}

/-- Another order of the regions keeps the same expressions within reach. -/
theorem reaches_relist_iff (hperm : regions.Perm mapping.regions) {id : UInt32} :
    (mapping.relist regions).Reaches id ↔ mapping.Reaches id := by
  have hcounters : (mapping.relist regions).regionCounters.Perm mapping.regionCounters :=
    hperm.flatMap_right _
  exact ⟨.mono hcounters.subset, .mono hcounters.symm.subset⟩

/-- **Which mappings are refused** does not depend on the order of their regions. -/
theorem encodable_relist_iff (hperm : regions.Perm mapping.regions) :
    (mapping.relist regions).Encodable ↔ mapping.Encodable := by
  constructor
  · rintro ⟨hregions, hexpressions⟩
    refine ⟨fun r hr => hregions r (hperm.mem_iff.2 hr), fun id hid => ?_⟩
    exact hexpressions id ((reaches_relist_iff hperm).2 hid)
  · rintro ⟨hregions, hexpressions⟩
    refine ⟨fun r hr => hregions r (hperm.mem_iff.1 hr), fun id hid => ?_⟩
    exact hexpressions id ((reaches_relist_iff hperm).1 hid)

/-- The canonical form depends on the order of the regions by the numbers of expressions alone. -/
theorem arrange_relist (hperm : regions.Perm mapping.regions)
    (hstarts : (mapping.regions.map Region.start).Nodup) (order : List Nat) :
    (mapping.relist regions).arrange order = mapping.arrange order := by
  have hsorted : regions.mergeSort Region.le = mapping.regions.mergeSort Region.le :=
    (Region.sortedAs_mergeSort mapping.regions).eq_of_perm (Region.sortedAs_mergeSort regions)
      hperm hstarts
  rw [arrange, arrange, relist, hsorted]

namespace CanonicalForm

variable {canonical canonical' : Mapping} {f g : UInt32 → UInt32}

/-- From the numbers that `f` gives to those that `g` gives, by way of the position that an
expression has in the mapping. -/
noncomputable def change (mapping : Mapping) (f g : UInt32 → UInt32) (number : UInt32) : UInt32 :=
  g (Function.invFunOn (fun id => (f id).toNat) {id | mapping.Reaches id} number.toNat)

/-- The number of an expression within reach is changed into its other number. -/
theorem change_apply (h : CanonicalForm mapping canonical f) {id : UInt32}
    (hid : mapping.Reaches id) : change mapping f g (f id) = g id :=
  congrArg g (h.bijOn.invOn_invFunOn.1 hid)

/-- So are the numbers in counters within reach. -/
theorem rename_change (h : CanonicalForm mapping canonical f) {c : Counter}
    (hc : ∀ id, c = .expression id → mapping.Reaches id) :
    (c.rename f).rename (change mapping f g) = c.rename g := by
  cases c with
  | zero => rfl
  | physical id => rfl
  | expression id => exact congrArg Counter.expression (h.change_apply (hc id rfl))

/-- Every number is that of an expression within reach. -/
theorem exists_number_eq (h : CanonicalForm mapping canonical f) {number : UInt32}
    (hnumber : number.toNat < canonical.expressions.length) :
    ∃ id, mapping.Reaches id ∧ f id = number := by
  obtain ⟨id, hid, heq⟩ := h.bijOn.surjOn hnumber
  exact ⟨id, hid, UInt32.toNat_inj.1 heq⟩

/-- The change of numbers is one-to-one. -/
theorem bijOn_change (h : CanonicalForm mapping canonical f) {n : Nat}
    (h' : Set.BijOn (fun id => (g id).toNat) {id | mapping.Reaches id} (Set.Iio n)) :
    Set.BijOn (fun number => (change mapping f g number).toNat)
      {number | number.toNat < canonical.expressions.length} (Set.Iio n) := by
  refine ⟨?_, ?_, ?_⟩
  · intro number hnumber
    obtain ⟨id, hid, rfl⟩ := h.exists_number_eq hnumber
    simp only [h.change_apply hid]
    exact h'.mapsTo hid
  · intro number hnumber number' hnumber' heq
    obtain ⟨id, hid, rfl⟩ := h.exists_number_eq hnumber
    obtain ⟨id', hid', rfl⟩ := h.exists_number_eq hnumber'
    simp only [h.change_apply hid, h.change_apply hid'] at heq
    rw [h'.injOn hid hid' heq]
  · intro k hk
    obtain ⟨id, hid, hk⟩ := h'.surjOn hk
    refine ⟨f id, h.bijOn.mapsTo hid, ?_⟩
    simp only [h.change_apply hid]
    exact hk

/-- **Two canonical forms** of a mapping whose regions are listed in two orders are the same under
other numbers of the expressions. -/
theorem renumberedBy (h : CanonicalForm mapping canonical f)
    (h' : CanonicalForm (mapping.relist regions) canonical' g)
    (hperm : regions.Perm mapping.regions) (hstarts : (mapping.regions.map Region.start).Nodup) :
    RenumberedBy (change mapping f g) canonical canonical' where
  files := h'.files.trans h.files.symm
  regions := by
    obtain ⟨sorted, hsorted, hregions⟩ := h.regions
    obtain ⟨sorted', hsorted', hregions'⟩ := h'.regions
    obtain rfl : sorted' = sorted := hsorted.eq_of_perm hsorted' hperm hstarts
    rw [hregions, hregions', List.map_map]
    refine List.map_congr_left fun r hr => ?_
    have hmem : r ∈ mapping.regions := hsorted.perm.mem_iff.1 hr
    have hkind : r.kind.mapCounters (Counter.rename g)
        = r.kind.mapCounters fun c => (c.rename f).rename (change mapping f g) := by
      refine RegionKind.mapCounters_congr fun c hc => (h.rename_change fun id hid => ?_).symm
      exact .counter (hid ▸ List.mem_flatMap.2 ⟨r, hmem, hc⟩)
    simp only [Function.comp_apply, Region.mapCounters, hkind, RegionKind.mapCounters_mapCounters]
  bijOn := by
    have hbij := h'.bijOn
    simp only [reaches_relist_iff hperm] at hbij
    exact h.bijOn_change hbij
  expression := by
    intro number e he
    obtain ⟨id, hid, rfl⟩ := h.exists_number_eq (List.getElem?_eq_some_iff.1 he).1
    -- Both canonical forms have the expression that stands at `id`, under their own numbers.
    obtain ⟨e₀, he₀, hform⟩ := h.expression id hid
    obtain ⟨e₀', he₀', hform'⟩ := h'.expression id ((reaches_relist_iff hperm).2 hid)
    obtain rfl : e₀ = e₀' := Option.some.inj (he₀.symm.trans he₀')
    obtain rfl : e₀.mapOperands (Counter.rename f) = e := Option.some.inj (hform.symm.trans he)
    have hoperand : ∀ c ∈ e₀.operands,
        (c.rename f).rename (change mapping f g) = c.rename g := by
      intro c hc
      exact h.rename_change fun id' hid' => .operand hid he₀ (hid' ▸ hc)
    rw [h.change_apply hid, hform', Expression.mapOperands, Expression.mapOperands,
      Expression.mapOperands, hoperand e₀.lhs (by simp [Expression.operands]),
      hoperand e₀.rhs (by simp [Expression.operands])]

end CanonicalForm

/-! ### Encodings -/

/-- **Listing the regions otherwise.** Where no two regions start at the same place, a mapping that
is encoded is encoded with its regions in any order. The two encodings are the written forms of
canonical mappings, and are decoded to them, that differ by a one-to-one change of the expressions'
numbers; they are equal if the traversal meets the expressions in the same order, as it does if the
references to expressions stand in the same order. -/
theorem encode_relist {bytes : Bytes} (hperm : regions.Perm mapping.regions)
    (hstarts : (mapping.regions.map Region.start).Nodup) (h : mapping.encode = .ok bytes) :
    ∃ canonical canonical' number bytes', mapping.canonical = .ok canonical ∧
      (mapping.relist regions).canonical = .ok canonical' ∧
      (mapping.relist regions).encode = .ok bytes' ∧
      RenumberedBy number canonical canonical' ∧
      (mapping.files.length < UInt32.size → mapping.regions.length < UInt64.size →
        decode bytes = .ok canonical ∧ decode bytes' = .ok canonical') ∧
      ((mapping.relist regions).expressionOrder = mapping.expressionOrder → bytes' = bytes) ∧
      ((mapping.relist regions).regionCounters.filter Counter.isExpression
        = mapping.regionCounters.filter Counter.isExpression → bytes' = bytes) := by
  obtain ⟨hvalid, order, horder, rfl⟩ := encode_eq_ok_iff.1 h
  have hcanonical := canonical_eq_ok_iff.2 ⟨hvalid, order, horder, rfl⟩
  obtain ⟨canonical', hcanonical'⟩ := exists_canonical_iff.2
    ((encodable_relist_iff hperm).2 (exists_canonical_iff.1 ⟨_, hcanonical⟩))
  obtain ⟨hvalid', order', horder', rfl⟩ := canonical_eq_ok_iff.1 hcanonical'
  have hsame : (mapping.relist regions).expressionOrder = mapping.expressionOrder →
      ((mapping.relist regions).arrange order').toBytes = (mapping.arrange order).toBytes := by
    intro heq
    obtain rfl : order' = order := Except.ok.inj (horder'.symm.trans (heq.trans horder))
    rw [arrange_relist hperm hstarts]
  refine ⟨_, _, _, _, hcanonical, hcanonical',
    encode_eq_ok_iff.2 ⟨hvalid', order', horder', rfl⟩,
    (canonicalForm_arrange horder).renumberedBy (canonicalForm_arrange horder') hperm hstarts,
    ?_, hsame, ?_⟩
  · intro hfiles hregions
    have hregions' : regions.length < UInt64.size := hperm.length_eq ▸ hregions
    exact ⟨decode_toBytes (presentable_arrange hfiles hregions hvalid horder),
      decode_toBytes (presentable_arrange hfiles hregions' hvalid' horder')⟩
  · intro hreferences
    exact hsame (numberFrom_congr hreferences)

/-- A line that two counters count together, and one that their difference counts. -/
def sumAndDifference : Mapping where
  files := [0]
  expressions := [⟨.add, .physical 0, .physical 1⟩, ⟨.subtract, .physical 0, .physical 1⟩]
  regions := [⟨.code (.expression 0), 0, ⟨1, 1, 1, 9⟩⟩, ⟨.code (.expression 1), 0, ⟨2, 1, 2, 9⟩⟩]

/-- Its regions are in order. -/
theorem arrange_sumAndDifference (order : List Nat) : sumAndDifference.arrange order =
    { sumAndDifference with
      expressions := (order.filterMap (sumAndDifference.expressions[·]?)).map
        (·.mapOperands (Counter.renumber order))
      regions := sumAndDifference.regions.map (·.mapCounters (Counter.renumber order)) } := by
  rw [arrange, List.mergeSort_of_pairwise (by decide)]

/-- The sum is met before the difference. -/
theorem encode_sumAndDifference : sumAndDifference.encode
    = .ok [1, 0, 2, 1, 5, 1, 5, 2, 3, 1, 1, 0, 9, 6, 1, 1, 0, 9] := by
  have hcheck : sumAndDifference.check = .ok () := rfl
  have horder : sumAndDifference.expressionOrder = .ok [0, 1] := by
    rw [expressionOrder, show sumAndDifference.regionCounters = [.expression 0, .expression 1]
      from rfl]
    simp [sumAndDifference, numberFrom_expression, numberFrom]
  have hbytes : (sumAndDifference.arrange [0, 1]).toBytes
      = [1, 0, 2, 1, 5, 1, 5, 2, 3, 1, 1, 0, 9, 6, 1, 1, 0, 9] := by
    rw [arrange_sumAndDifference]
    cbv
  exact encode_eq_ok_iff.2 ⟨check_eq_ok_iff.1 hcheck, _, horder, hbytes⟩

/-- With the regions listed from the last to the first, it is met after it. -/
theorem encode_relist_sumAndDifference :
    (sumAndDifference.relist sumAndDifference.regions.reverse).encode
      = .ok [1, 0, 2, 1, 5, 1, 5, 2, 7, 1, 1, 0, 9, 2, 1, 1, 0, 9] := by
  let relisted := sumAndDifference.relist sumAndDifference.regions.reverse
  have hcheck : relisted.check = .ok () := rfl
  have horder : relisted.expressionOrder = .ok [1, 0] := by
    rw [expressionOrder, show relisted.regionCounters = [.expression 1, .expression 0] from rfl]
    simp [relisted, relist, sumAndDifference, numberFrom_expression, numberFrom]
  have hbytes : (relisted.arrange [1, 0]).toBytes
      = [1, 0, 2, 1, 5, 1, 5, 2, 7, 1, 1, 0, 9, 2, 1, 1, 0, 9] := by
    rw [arrange_relist (List.reverse_perm _) (by decide), arrange_sumAndDifference]
    cbv
  exact encode_eq_ok_iff.2 ⟨check_eq_ok_iff.1 hcheck, _, horder, hbytes⟩

/-- The encodings of the two listings are decoded to mappings with other numbers. -/
theorem encode_relist_reverse :
    sumAndDifference.regions.reverse.Perm sumAndDifference.regions ∧
    (sumAndDifference.regions.map Region.start).Nodup ∧
    ∃ bytes bytes' canonical canonical' number, sumAndDifference.encode = .ok bytes ∧
      (sumAndDifference.relist sumAndDifference.regions.reverse).encode = .ok bytes' ∧
      decode bytes = .ok canonical ∧ decode bytes' = .ok canonical' ∧
      RenumberedBy number canonical canonical' := by
  have hperm := List.reverse_perm sumAndDifference.regions
  have hstarts : (sumAndDifference.regions.map Region.start).Nodup := by decide
  obtain ⟨canonical, canonical', number, bytes', -, -, hencode, hrenumbered, hdecode, -, -⟩ :=
    encode_relist hperm hstarts encode_sumAndDifference
  obtain ⟨hdecoded, hdecoded'⟩ := hdecode (by decide) (by decide)
  exact ⟨hperm, hstarts, _, bytes', canonical, canonical', number, encode_sumAndDifference, hencode,
    hdecoded, hdecoded', hrenumbered⟩

/-- **Listing the regions otherwise can change the bytes**, where regions refer to expressions. -/
theorem not_forall_encode_relist_eq :
    ¬∀ (mapping : Mapping) (regions : List Region) (bytes : Bytes),
      mapping.encode = .ok bytes → (mapping.regions.map Region.start).Nodup →
      regions.Perm mapping.regions → (mapping.relist regions).encode = .ok bytes := by
  intro hall
  have hsame := hall sumAndDifference _ _ encode_sumAndDifference (by decide)
    (List.reverse_perm sumAndDifference.regions)
  rw [encode_relist_sumAndDifference] at hsame
  exact absurd (Except.ok.inj hsame) (by decide)

end Mapping

end SourceCoverage
