import SourceCoverage.Mapping.Encoding

/-!
# The Order of Regions

A mapping is written with its regions in order of their starts: by file, then by line, then by
column. Regions that start at the same place stay as they are listed, so that the order is a
*stable* sort of the list. What this means is said without any sorting algorithm, in
`Region.SortedAs`; that the encoding's merge sort has the property is a theorem.

## Main results

* `Region.sortedAs_mergeSort`: the encoding's order is a stable sort of the regions.
* `Mapping.flatMap_regionsOf`: regions in order are those of the first file, those of the second
  one, and so on.
-/

namespace SourceCoverage

namespace Region

/-- Where a region starts: its file, line and column. -/
def start (region : Region) : UInt32 × UInt32 × UInt32 :=
  (region.file, region.span.lineStart, region.span.columnStart)

/-- The order of regions, in words. -/
theorem le_iff {r s : Region} : r.le s = true ↔ r.file < s.file ∨ r.file = s.file ∧
    (r.span.lineStart < s.span.lineStart ∨ r.span.lineStart = s.span.lineStart ∧
      r.span.columnStart ≤ s.span.columnStart) := by
  simp [le]

/-- The order of regions, in terms of numbers. -/
theorem le_iff_toNat {r s : Region} : r.le s = true ↔ r.file.toNat < s.file.toNat ∨
    r.file.toNat = s.file.toNat ∧ (r.span.lineStart.toNat < s.span.lineStart.toNat ∨
      r.span.lineStart.toNat = s.span.lineStart.toNat ∧
        r.span.columnStart.toNat ≤ s.span.columnStart.toNat) := by
  simp only [le_iff, UInt32.lt_iff_toNat_lt, UInt32.le_iff_toNat_le, UInt32.toNat_inj]

theorem le_trans (r s t : Region) (hrs : r.le s = true) (hst : s.le t = true) :
    r.le t = true := by
  rw [le_iff_toNat] at hrs hst ⊢
  omega

theorem le_total (r s : Region) : (r.le s || s.le r) = true := by
  rw [Bool.or_eq_true, le_iff_toNat, le_iff_toNat]
  omega

/-- Regions that start at the same place stand in either order. -/
theorem le_of_start_eq {r s : Region} (h : r.start = s.start) : r.le s = true := by
  simp only [start, Prod.mk.injEq] at h
  obtain ⟨hfile, hline, hcolumn⟩ := h
  exact le_iff.2 (.inr ⟨hfile, .inr ⟨hline, hcolumn ▸ UInt32.le_refl _⟩⟩)

/-- The second list is a **stable sort** of the first one: it has the same regions, in the order
of their starts, and those that start at the same place are listed in the same order. -/
structure SortedAs (regions sorted : List Region) : Prop where
  perm : sorted.Perm regions
  ordered : sorted.Pairwise fun r s => r.le s = true
  stable : ∀ start, sorted.filter (·.start = start) = regions.filter (·.start = start)

/-- The order in which regions are written is a stable sort of them. Those with one start are a
part of the list that is in order already, and so a part of the sorted list in the same order. -/
theorem sortedAs_mergeSort (regions : List Region) :
    SortedAs regions (regions.mergeSort le) where
  perm := List.mergeSort_perm ..
  ordered := List.pairwise_mergeSort le_trans le_total regions
  stable := fun key => by
    have hordered : (regions.filter (·.start = key)).Pairwise fun r s => r.le s = true := by
      rw [List.pairwise_filter]
      refine List.pairwise_of_forall fun r s hr hs => le_of_start_eq ?_
      rw [decide_eq_true_eq] at hr hs
      exact hr.trans hs.symm
    have hsub : (regions.filter (·.start = key)).Sublist (regions.mergeSort le) :=
      List.sublist_mergeSort le_trans le_total hordered List.filter_sublist
    have hfilter := hsub.filter (·.start = key)
    rw [List.filter_filter] at hfilter
    simp only [Bool.and_self] at hfilter
    have hlength := ((List.mergeSort_perm regions le).filter (·.start = key)).length_eq
    exact (hfilter.eq_of_length hlength.symm).symm

end Region

/-! ### Regions by file -/

/-- In a list that is in order of some number, the elements below `n + 1` are those below `n`
followed by those at `n`. -/
theorem filter_lt_succ {α : Type} (key : α → Nat) (n : Nat) {xs : List α}
    (h : xs.Pairwise fun x y => key x ≤ key y) :
    xs.filter (fun x => key x < n + 1)
      = xs.filter (fun x => key x < n) ++ xs.filter (fun x => key x = n) := by
  induction xs with
  | nil => rfl
  | cons x xs ih =>
      obtain ⟨hx, hxs⟩ := List.pairwise_cons.1 h
      rcases Nat.lt_trichotomy (key x) n with hlt | heq | hgt
      · rw [List.filter_cons_of_pos (by simpa using by omega),
          List.filter_cons_of_pos (by simpa using hlt),
          List.filter_cons_of_neg (by simpa using by omega), ih hxs, List.cons_append]
      · have hnone : xs.filter (fun y => key y < n) = [] := by
          refine List.filter_eq_nil_iff.2 fun y hy => ?_
          have := hx y hy
          simpa using by omega
        rw [List.filter_cons_of_pos (by simpa using by omega),
          List.filter_cons_of_neg (by simpa using by omega),
          List.filter_cons_of_pos (by simpa using heq), ih hxs, hnone, List.nil_append,
          List.nil_append]
      · rw [List.filter_cons_of_neg (by simpa using by omega),
          List.filter_cons_of_neg (by simpa using by omega),
          List.filter_cons_of_neg (by simpa using by omega), ih hxs]

/-- A list in order of some number below `n` is made of its elements at 0, at 1, and so on. -/
theorem flatMap_filter_eq {α : Type} (key : α → Nat) {n : Nat} {xs : List α}
    (h : xs.Pairwise fun x y => key x ≤ key y) (hlt : ∀ x ∈ xs, key x < n) :
    (List.range n).flatMap (fun k => xs.filter (fun x => key x = k)) = xs := by
  have hbelow : ∀ k, (List.range k).flatMap (fun k => xs.filter (fun x => key x = k))
      = xs.filter (fun x => key x < k) := by
    intro k
    induction k with
    | zero => simp
    | succ k ih =>
        rw [List.range_succ, List.flatMap_append, ih, List.flatMap_singleton,
          filter_lt_succ key k h]
  rw [hbelow, List.filter_eq_self.2]
  simpa using hlt

/-- The regions of the canonical form are in order. -/
theorem Mapping.pairwise_regions_arrange (mapping : Mapping) (order : List Nat) :
    (mapping.arrange order).regions.Pairwise fun r s => r.le s = true := by
  rw [arrange, List.pairwise_map]
  exact (Region.sortedAs_mergeSort mapping.regions).ordered

/-- Where regions are in order, those of one file are in the order of their lines. -/
theorem Mapping.pairwise_regionsOf {mapping : Mapping}
    (hordered : mapping.regions.Pairwise fun r s => r.le s = true) (file : Nat) :
    (mapping.regionsOf file).Pairwise fun r s => r.span.lineStart ≤ s.span.lineStart := by
  refine List.Pairwise.imp_of_mem ?_ (hordered.sublist List.filter_sublist)
  intro r s hr hs hle
  have hrfile : r.file.toNat = file := by simpa using (List.mem_filter.1 hr).2
  have hsfile : s.file.toNat = file := by simpa using (List.mem_filter.1 hs).2
  rw [Region.le_iff_toNat] at hle
  rw [UInt32.le_iff_toNat_le]
  omega

/-- Regions in order are those of the first file, those of the second one, and so on. -/
theorem Mapping.flatMap_regionsOf {mapping : Mapping}
    (hordered : mapping.regions.Pairwise fun r s => r.le s = true)
    (hfile : ∀ region ∈ mapping.regions, region.file.toNat < mapping.files.length) :
    (List.range mapping.files.length).flatMap mapping.regionsOf = mapping.regions := by
  refine flatMap_filter_eq (·.file.toNat) (hordered.imp fun hle => ?_) hfile
  rw [Region.le_iff_toNat] at hle
  omega

end SourceCoverage
