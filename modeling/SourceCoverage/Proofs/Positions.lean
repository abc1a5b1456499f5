import Mathlib.Data.Finset.Card
import Mathlib.Data.List.Forall2
import SourceCoverage.Proofs.Filenames

/-!
# Positions in a Filenames Table

Mappings refer to files by the positions that a table gave when their paths were inserted, while it
went on growing. A table grows at its end only and keeps each path once, so the position of a path
is settled by the first insertion and the same in every later table; whether an insertion finds the
path or adds it makes no difference to what it answers.

A position is a 32-bit word. It is that of the path as long as the last table has no more than
`2 ^ 32` paths; only there is a bound on their number needed.

## Main results

* `FilenameTable.prefix_insertAll`: what stands in a table stays where it is.
* `FilenameTable.positions_insertEach`: all answers, in terms of the last table.
* `FilenameTable.positions_stable`: the files of the last table, and what the answers mean there.
-/

namespace SourceCoverage

/-! ### Elements kept once -/

section KeptOnce

variable {α : Type} [DecidableEq α]

/-- Elements that are kept once each stand in the order in which they came first. Induction from
the end: a last element that was there before changes nothing, a new one came after all others. -/
theorem pairwise_idxOf_eraseDups (xs : List α) :
    xs.eraseDups.Pairwise fun x y => xs.idxOf x < xs.idxOf y := by
  induction xs using List.reverseRecOn with
  | nil => exact List.Pairwise.nil
  | append_singleton xs z ih =>
      have hidx : ∀ x ∈ xs, (xs ++ [z]).idxOf x = xs.idxOf x := fun x hx =>
        List.idxOf_append_of_mem hx
      have hkept : xs.eraseDups.Pairwise fun x y => (xs ++ [z]).idxOf x < (xs ++ [z]).idxOf y := by
        refine List.Pairwise.imp_of_mem (fun hx hy h => ?_) ih
        rwa [hidx _ (List.mem_eraseDups.mp hx), hidx _ (List.mem_eraseDups.mp hy)]
      rw [List.eraseDups_append]
      by_cases hz : z ∈ xs
      · simpa [List.removeAll, hz] using hkept
      · have hnew : ([z].removeAll xs).eraseDups = [z] := by
          simp [List.removeAll, hz, List.eraseDups_cons]
        rw [hnew]
        refine List.pairwise_append.mpr ⟨hkept, List.pairwise_singleton _ _, fun x hx y hy => ?_⟩
        obtain rfl := List.mem_singleton.mp hy
        have hxs := List.mem_eraseDups.mp hx
        rw [hidx x hxs, List.idxOf_append_of_notMem hz]
        exact Nat.lt_add_right _ (List.idxOf_lt_length_iff.mpr hxs)

/-- Elements that are kept once each are distinct. -/
theorem nodup_eraseDups (xs : List α) : xs.eraseDups.Nodup :=
  (pairwise_idxOf_eraseDups xs).imp fun h heq => Nat.ne_of_lt h (congrArg xs.idxOf heq)

/-- As many elements are kept as there are different ones. -/
theorem length_eraseDups (xs : List α) : xs.eraseDups.length = xs.toFinset.card := by
  have hset : xs.eraseDups.toFinset = xs.toFinset := by
    ext x
    rw [List.mem_toFinset, List.mem_toFinset, List.mem_eraseDups]
  rw [← hset, List.toFinset_card_of_nodup (nodup_eraseDups xs)]

end KeptOnce

namespace FilenameTable

variable {table later : FilenameTable} {path other : String}

/-- Several paths inserted one after another: the last table, and what each insertion answers. -/
def insertEach (table : FilenameTable) : List String → FilenameTable × List UInt32
  | [] => (table, [])
  | path :: paths =>
    let (next, position) := table.insert path
    let (last, positions) := next.insertEach paths
    (last, position :: positions)

/-- The word for the position of a path that stands in a table. -/
def positionOf (table : FilenameTable) (path : String) : UInt32 :=
  UInt32.ofNat (table.files.idxOf path)

/-! ### Growth -/

/-- An insertion leaves what stands in the table where it is. -/
theorem prefix_insert (table : FilenameTable) (path : String) :
    table.files <+: (table.insert path).1.files := by
  rw [files_insert]
  split
  · exact List.prefix_rfl
  · exact List.prefix_append _ _

/-- **What stands in a table stays where it is**, whatever is inserted. -/
theorem prefix_insertAll (table : FilenameTable) (paths : List String) :
    table.files <+: (table.insertAll paths).files := by
  induction paths generalizing table with
  | nil => exact List.prefix_rfl
  | cons path paths ih => exact (prefix_insert table path).trans (ih _)

/-- A path that is inserted stands in the table. -/
theorem mem_files_insert (table : FilenameTable) (path : String) :
    path ∈ (table.insert path).1.files := by
  rw [files_insert]
  split
  · assumption
  · exact List.mem_append_right _ (List.mem_singleton_self path)

/-- The position of a path is the same in every table that goes on from one with the path. -/
theorem positionOf_eq_of_mem (h : table.files <+: later.files) (hmem : path ∈ table.files) :
    later.positionOf path = table.positionOf path := by
  rw [positionOf, positionOf, h.idxOf_eq_of_mem hmem]

/-! ### Answers -/

/-- An insertion answers the position that the path has then, whether it was there or not. -/
theorem position_insert (table : FilenameTable) (path : String) :
    (table.insert path).2 = (table.insert path).1.positionOf path := by
  rw [positionOf, insert]
  cases hfound : table.files.idxOf? path with
  | some position =>
      have hidx : table.files.idxOf path = position := by
        rw [List.idxOf_eq_getD_idxOf?, hfound, Option.getD_some]
      exact congrArg UInt32.ofNat hidx.symm
  | none =>
      have hidx : (table.files ++ [path]).idxOf path = table.size := by
        rw [List.idxOf_append_of_notMem (List.idxOf?_eq_none_iff.mp hfound), List.idxOf_cons_self]
        rfl
      exact congrArg UInt32.ofNat hidx.symm

/-- Without the answers, paths are inserted as before. -/
theorem table_insertEach (table : FilenameTable) (paths : List String) :
    (table.insertEach paths).1 = table.insertAll paths := by
  induction paths generalizing table with
  | nil => rfl
  | cons path paths ih => exact ih (table.insert path).1

/-- **Every insertion answers the position that its path has in the last table.** Induction on the
paths: what the first insertion answers is kept by those that follow. -/
theorem positions_insertEach (table : FilenameTable) (paths : List String) :
    (table.insertEach paths).2 = paths.map (table.insertAll paths).positionOf := by
  induction paths generalizing table with
  | nil => rfl
  | cons path paths ih =>
      have hfirst : (table.insert path).2 = (table.insertAll (path :: paths)).positionOf path := by
        rw [position_insert]
        exact (positionOf_eq_of_mem (prefix_insertAll (table.insert path).1 paths)
          (mem_files_insert table path)).symm
      rw [List.map_cons, ← hfirst]
      exact congrArg _ (ih (table.insert path).1)

/-! ### What a position designates -/

/-- In a table that is not too long, the word for a position is the position. -/
theorem toNat_positionOf (hsize : table.size ≤ UInt32.size) (hmem : path ∈ table.files) :
    (table.positionOf path).toNat = table.files.idxOf path :=
  UInt32.toNat_ofNat_of_lt (Nat.lt_of_lt_of_le (List.idxOf_lt_length_iff.mpr hmem) hsize)

/-- The position of a path designates it. -/
theorem getElem?_positionOf (hsize : table.size ≤ UInt32.size) (hmem : path ∈ table.files) :
    table.files[(table.positionOf path).toNat]? = some path := by
  rw [toNat_positionOf hsize hmem, List.getElem?_idxOf hmem]

/-- Positions tell paths apart. -/
theorem positionOf_inj (hsize : table.size ≤ UInt32.size) (hpath : path ∈ table.files)
    (hother : other ∈ table.files) :
    table.positionOf path = table.positionOf other ↔ path = other := by
  rw [← UInt32.toNat_inj, toNat_positionOf hsize hpath, toNat_positionOf hsize hother,
    List.idxOf_inj hpath]

/-- Among paths that stand in a table, two have the same position exactly if they are the same. -/
theorem getElem?_map_positionOf_inj {paths : List String} (hsize : table.size ≤ UInt32.size)
    (hpaths : ∀ path ∈ paths, path ∈ table.files) (i j : Nat) :
    (paths.map table.positionOf)[i]? = (paths.map table.positionOf)[j]?
      ↔ paths[i]? = paths[j]? := by
  rw [List.getElem?_map, List.getElem?_map]
  cases hi : paths[i]? with
  | none => cases paths[j]? <;> simp
  | some path =>
      cases hj : paths[j]? with
      | none => simp
      | some other =>
          rw [Option.map_some, Option.map_some, Option.some_inj, Option.some_inj]
          exact positionOf_inj hsize (hpaths path (List.mem_of_getElem? hi))
            (hpaths other (List.mem_of_getElem? hj))

/-! ### The last table -/

/-- A table grows by no more than the different paths that are inserted. -/
theorem size_insertAll_le {paths : List String} (h : table.files.eraseDups = table.files) :
    (table.insertAll paths).size ≤ table.size + paths.toFinset.card := by
  have hunion := Finset.card_union_le table.files.toFinset paths.toFinset
  have htable := List.toFinset_card_le table.files
  rw [size, size, files_insertAll paths h, length_eraseDups, List.toFinset_append]
  omega

/-- **Positions are stable and tell paths apart.** A table starts empty or with one path and takes
fewer than `2 ^ 32` different ones, in any order and repeated at will. In the end its files are the
distinct paths, each behind those that came before it; every answer designates its path there, and
two answers are the same exactly if the paths are. -/
theorem positions_stable {start : FilenameTable} {paths : List String}
    (hstart : start = empty ∨ ∃ path, start = single path)
    (hfew : paths.toFinset.card < UInt32.size) :
    let last := (start.insertEach paths).1
    let positions := (start.insertEach paths).2
    let arrivals := start.files ++ paths
    (last.files.Nodup ∧ (∀ path, path ∈ last.files ↔ path ∈ arrivals) ∧
        last.files.Pairwise fun path other => arrivals.idxOf path < arrivals.idxOf other) ∧
      List.Forall₂ (fun path position => last.files[position.toNat]? = some path) paths positions ∧
      ∀ i j : Nat, positions[i]? = positions[j]? ↔ paths[i]? = paths[j]? := by
  intro last positions arrivals
  have hdistinct : start.files.eraseDups = start.files ∧ start.size ≤ 1 := by
    rcases hstart with rfl | ⟨path, rfl⟩
    · exact ⟨rfl, Nat.zero_le 1⟩
    · exact ⟨by simp [single, List.eraseDups_cons], Nat.le_refl 1⟩
  have hlast : last = start.insertAll paths := table_insertEach start paths
  have hpositions : positions = paths.map last.positionOf := by
    rw [hlast]
    exact positions_insertEach start paths
  have hfiles : last.files = arrivals.eraseDups := by
    rw [hlast]
    exact files_insertAll paths hdistinct.1
  have hmem (path : String) : path ∈ last.files ↔ path ∈ arrivals := by
    rw [hfiles, List.mem_eraseDups]
  have hinserted : ∀ path ∈ paths, path ∈ last.files := fun path hpath =>
    (hmem path).mpr (List.mem_append_right _ hpath)
  have hsize : last.size ≤ UInt32.size := by
    have hgrown : (start.insertAll paths).size ≤ start.size + paths.toFinset.card :=
      size_insertAll_le hdistinct.1
    rw [hlast]
    omega
  refine ⟨⟨?_, hmem, ?_⟩, ?_, fun i j => ?_⟩
  · rw [hfiles]
    exact nodup_eraseDups arrivals
  · rw [hfiles]
    exact pairwise_idxOf_eraseDups arrivals
  · rw [hpositions, List.forall₂_map_right_iff, List.forall₂_same]
    exact fun path hpath => getElem?_positionOf hsize (hinserted path hpath)
  · rw [hpositions]
    exact getElem?_map_positionOf_inj hsize hinserted i j

/-- Five insertions, of which the path that the table starts with and two others are repeated. -/
theorem positions_stable_interleaved :
    let paths := ["", "é", "語", "", "語"]
    paths.toFinset.card < UInt32.size ∧
      (single "é").insertEach paths = (⟨["é", "", "語"]⟩, [1, 0, 2, 1, 2]) ∧
      List.Forall₂ (fun path position => ["é", "", "語"][position.toNat]? = some path) paths
        ([1, 0, 2, 1, 2] : List UInt32) ∧
      ∀ i j : Nat, ([1, 0, 2, 1, 2] : List UInt32)[i]? = [1, 0, 2, 1, 2][j]?
        ↔ paths[i]? = paths[j]? := by
  intro paths
  have hfew : paths.toFinset.card < UInt32.size :=
    Nat.lt_of_le_of_lt (List.toFinset_card_le paths) (by decide)
  have hrun : (single "é").insertEach paths = (⟨["é", "", "語"]⟩, [1, 0, 2, 1, 2]) := by decide
  have hstable := positions_stable (.inr ⟨"é", rfl⟩) hfew
  rw [hrun] at hstable
  exact ⟨hfew, hrun, hstable.2⟩

end FilenameTable

end SourceCoverage
