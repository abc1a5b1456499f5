import SourceCoverage.Filenames
import SourceCoverage.Proofs.Inflation
import SourceCoverage.Proofs.Reading

/-!
# Reading a Filenames Table Back

An encoded table is read as the paths that were written, in their order, whatever the paths hold.
Of compression nothing is used but that it can be undone and leaves something: a compressed length
of zero would say that the path data is not compressed.

## Main results

* `readPaths_pathData`: path data is read as its paths.
* `FilenameTable.readFilenamesWith_encodeWith`: an encoded table is read as its paths.
* `FilenameTable.files_insertAll`: paths inserted one after another are kept once each.
* `FilenameTable.read_insertAll`: a table built by insertions is read back by a guarded reader.
-/

namespace SourceCoverage

open Reader

/-! ### Path data -/

/-- As many bytes as were written are those that were written. -/
theorem Reader.Reads.take (data : Bytes) : Reads (Cursor.take data.length) data data := by
  intro offset rest
  simp [Cursor.take, Cursor.advance]

/-- A path is read behind its length. -/
theorem reads_readPath {path : String} (h : (utf8 path).length < UInt64.size) :
    Reads readPath (Leb128.writeNat (utf8 path).length ++ utf8 path) path := by
  have hlength : (UInt64.ofNat (utf8 path).length).toNat = (utf8 path).length :=
    UInt64.toNat_ofNat_of_lt h
  refine (Reads.uleb h).bind ?_
  rw [hlength]
  refine (Reads.take (utf8 path)).andThen ?_
  rw [ofUtf8?_utf8]
  exact .pure path

/-- Where a path is read, the paths are read on behind it. -/
theorem readPathsAfter_of_readPath {cursor next : Cursor} {path : String}
    (h : readPath cursor = .ok (path, next)) (reversed : List String) :
    readPathsAfter reversed cursor = readPathsAfter (path :: reversed) next := by
  have hrest : cursor.rest ≠ [] := by
    intro hnil
    have hshort := readPath_shortens h
    rw [hnil] at hshort
    cases hshort
  rw [readPathsAfter, if_neg hrest]
  split
  · rename_i e herror
    cases h.symm.trans herror
  · rename_i path' next' hok
    obtain ⟨rfl, rfl⟩ := Prod.mk.inj (Except.ok.inj (h.symm.trans hok))
    rfl

namespace FilenameTable

variable {table : FilenameTable} {path : String}

/-- A path is shorter than the path data that it is part of. -/
theorem length_utf8_le (h : path ∈ table.files) :
    (utf8 path).length ≤ table.pathData.length := by
  obtain ⟨before, after, hfiles⟩ := List.append_of_mem h
  rw [pathData, hfiles]
  simp only [List.flatMap_append, List.flatMap_cons, List.length_append]
  omega

/-- The number of paths is at most the number of bytes of the path data, since the length of a path
takes at least one. -/
theorem size_le_length_pathData (table : FilenameTable) :
    table.size ≤ table.pathData.length := by
  obtain ⟨files⟩ := table
  rw [size, pathData]
  induction files with
  | nil => exact Nat.le_refl 0
  | cons path files ih =>
      have hlength : (Leb128.writeNat (utf8 path).length).length ≠ 0 := fun h =>
        Leb128.digits_ne_nil _ (List.eq_nil_of_length_eq_zero h)
      simp only [List.flatMap_cons, List.length_append, List.length_cons] at ih ⊢
      omega

/-- The path data of a single path is hardly longer than the path. -/
theorem length_pathData_single_le (path : String) :
    (single path).pathData.length ≤ (utf8 path).length + 10 := by
  have hlength := Leb128.length_writeNat_le (utf8 path).length
  rw [single, pathData, List.flatMap_singleton, List.length_append]
  omega

/-- **Path data is read as its paths.** Induction on the paths that remain: each of them takes
bytes, so that the end is reached behind the last one. -/
theorem readPaths_pathData (h : table.pathData.length < UInt64.size) :
    readPaths (Cursor.start table.pathData) = .ok table.files := by
  have hafter : ∀ (paths reversed : List String) (offset : Nat),
      (∀ path ∈ paths, (utf8 path).length < UInt64.size) →
      readPathsAfter reversed
          ⟨offset, paths.flatMap fun path => Leb128.writeNat (utf8 path).length ++ utf8 path⟩
        = .ok (reversed.reverse ++ paths) := by
    intro paths
    induction paths with
    | nil =>
        intro reversed offset _
        rw [readPathsAfter, List.append_nil]
        exact if_pos rfl
    | cons path paths ih =>
        intro reversed offset hpaths
        rw [List.flatMap_cons, readPathsAfter_of_readPath
          (reads_readPath (hpaths path (List.mem_cons_self ..)) offset _),
          ih _ _ fun other hother => hpaths other (List.mem_cons_of_mem _ hother),
          List.reverse_cons, List.append_assoc, List.singleton_append]
  exact hafter table.files [] 0 fun path hpath => Nat.lt_of_le_of_lt (length_utf8_le hpath) h

/-! ### Tables -/

end FilenameTable

/-- A way to compress and a way to inflate fit each other on given data: the stream is not empty,
and inflated to the length of the data it is the data. -/
structure Restores (compress : Bytes → Bytes) (inflate : Nat → Bytes → Option Bytes)
    (data : Bytes) : Prop where
  ne_nil : compress data ≠ []
  inflate_eq : inflate data.length (compress data) = some data

namespace FilenameTable

variable {table : FilenameTable} {inflate : Nat → Bytes → Option Bytes}

/-- A stream is shorter than the blob that it is part of. -/
theorem length_le_length_blob (table : FilenameTable) (data : Bytes) :
    data.length ≤ (table.blob (some data)).length := by
  simp only [blob, List.length_append]
  omega

/-- The path data of a table is read from what it is stored as. -/
theorem reads_readPathData {compressed : Option Bytes}
    (hcompressed : ∀ data, compressed = some data →
      data ≠ [] ∧ inflate table.pathData.length data = some table.pathData) :
    Reads (readPathData inflate table.pathData.length ((compressed.map List.length).getD 0))
      (compressed.getD table.pathData) table.pathData := by
  cases compressed with
  | none => exact .take table.pathData
  | some data =>
      obtain ⟨hne, hinflate⟩ := hcompressed data rfl
      have hlength : data.length ≠ 0 := fun h => hne (List.eq_nil_of_length_eq_zero h)
      change Reads (readPathData inflate table.pathData.length data.length) data table.pathData
      rw [readPathData, if_neg hlength]
      refine (Reads.take data).andThen ?_
      rw [hinflate]
      exact .pure table.pathData

/-- The number of paths and the path data are read from the blob of a table. -/
theorem readsAll_readTable {compressed : Option Bytes}
    (hlength : table.pathData.length < UInt64.size)
    (hcompressed : ∀ data, compressed = some data → data.length < UInt64.size ∧
      data ≠ [] ∧ inflate table.pathData.length data = some table.pathData) :
    ReadsAll (readTable inflate) (table.blob compressed)
      (UInt64.ofNat table.size, table.pathData) := by
  let storedLength := (compressed.map List.length).getD 0
  have hstored : storedLength < UInt64.size := by
    cases compressed with
    | none => exact Nat.zero_lt_of_lt hlength
    | some data => exact (hcompressed data rfl).1
  have hsize : table.size < UInt64.size :=
    Nat.lt_of_le_of_lt table.size_le_length_pathData hlength
  have hblob : table.blob compressed = Leb128.writeNat table.size
      ++ (Leb128.writeNat table.pathData.length
        ++ (Leb128.writeNat storedLength ++ compressed.getD table.pathData)) := by
    cases compressed <;> simp [blob, storedLength]
  have hdata := reads_readPathData fun data hdata => (hcompressed data hdata).2
  have hlengthValue : (UInt64.ofNat table.pathData.length).toNat = table.pathData.length :=
    UInt64.toNat_ofNat_of_lt hlength
  have hstoredValue : (UInt64.ofNat storedLength).toNat = storedLength :=
    UInt64.toNat_ofNat_of_lt hstored
  rw [hblob, readTable]
  refine .bind (.uleb hsize) (.bind (.uleb hlength) (.bind (.uleb hstored) ?_))
  rw [hlengthValue, hstoredValue]
  exact .andThen hdata (.finish (.pure _))

/-- A table is read from its blob. -/
theorem readFilenamesWith_blob {compressed : Option Bytes}
    (hlength : table.pathData.length < UInt64.size)
    (hcompressed : ∀ data, compressed = some data → data.length < UInt64.size ∧
      data ≠ [] ∧ inflate table.pathData.length data = some table.pathData) :
    readFilenamesWith inflate (table.blob compressed) = .ok table.files := by
  have hsize : table.size < UInt64.size :=
    Nat.lt_of_le_of_lt table.size_le_length_pathData hlength
  have hcount : ¬table.files.length ≠ (UInt64.ofNat table.size).toNat := fun hne =>
    hne (UInt64.toNat_ofNat_of_lt hsize).symm
  have htable : (readTable inflate).run (Cursor.start (table.blob compressed))
      = .ok ((UInt64.ofNat table.size, table.pathData), _) :=
    readsAll_readTable hlength hcompressed 0
  rw [readFilenamesWith, htable]
  simp only [bind, Except.bind, readPaths_pathData hlength, if_neg hcount]
  rfl

/-- **An encoded table is read as its paths**, compressed or not. -/
theorem readFilenamesWith_encodeWith {compress : Bytes → Bytes} {compressing : Bool}
    (hlength : table.pathData.length < UInt64.size)
    (hcompress : compressing = true → (compress table.pathData).length < UInt64.size ∧
      Restores compress inflate table.pathData) :
    readFilenamesWith inflate (table.encodeWith compress compressing).blob = .ok table.files := by
  refine readFilenamesWith_blob hlength fun data hdata => ?_
  cases compressing with
  | false => cases hdata
  | true =>
      obtain rfl := Option.some.inj hdata
      obtain ⟨hstream, hrestores⟩ := hcompress rfl
      exact ⟨hstream, hrestores.ne_nil, hrestores.inflate_eq⟩

end FilenameTable

/-! ### Tables built by insertions -/

/-- Elements that are put behind a list one after another, each unless it is there already, are kept
once each, in the order in which they came first. -/
theorem foldl_keepOnce {α : Type} [DecidableEq α] (xs : List α) {seen : List α}
    (h : seen.eraseDups = seen) :
    xs.foldl (fun seen x => if x ∈ seen then seen else seen ++ [x]) seen
      = (seen ++ xs).eraseDups := by
  induction xs generalizing seen with
  | nil => rw [List.append_nil, h, List.foldl_nil]
  | cons x xs ih =>
      rw [List.foldl_cons]
      by_cases hmem : x ∈ seen
      · rw [if_pos hmem, ih h, List.eraseDups_append, List.eraseDups_append]
        simp [List.removeAll, hmem]
      · have hdistinct : (seen ++ [x]).eraseDups = seen ++ [x] := by
          rw [List.eraseDups_append, h]
          simp [List.removeAll, hmem, List.eraseDups_cons]
        rw [if_neg hmem, ih hdistinct, List.append_assoc, List.singleton_append]

namespace FilenameTable

/-- The table with several paths inserted one after another. -/
def insertAll (table : FilenameTable) (paths : List String) : FilenameTable :=
  paths.foldl (fun table path => (table.insert path).1) table

/-- A path that is inserted stands behind the others, if it is not among them. -/
theorem files_insert (table : FilenameTable) (path : String) :
    (table.insert path).1.files
      = if path ∈ table.files then table.files else table.files ++ [path] := by
  rw [insert]
  split
  · rename_i position hposition
    have hmem : path ∈ table.files := by
      by_contra hnot
      rw [List.idxOf?_eq_none_iff.mpr hnot] at hposition
      cases hposition
    rw [if_pos hmem]
  · rename_i hnone
    rw [if_neg (List.idxOf?_eq_none_iff.mp hnone)]

/-- Paths inserted one after another are kept once each, in the order in which they came first. -/
theorem files_insertAll {table : FilenameTable} (paths : List String)
    (h : table.files.eraseDups = table.files) :
    (table.insertAll paths).files = (table.files ++ paths).eraseDups := by
  have hfold : (table.insertAll paths).files
      = paths.foldl (fun seen path => if path ∈ seen then seen else seen ++ [path])
        table.files := by
    clear h
    induction paths generalizing table with
    | nil => rfl
    | cons path paths ih =>
        rw [List.foldl_cons, ← files_insert]
        exact ih
  rw [hfold, foldl_keepOnce paths h]

/-- **A table is read back.** It starts empty or with one path, and takes any further paths. If the
path data is compressed, nothing is asked of the compression but that it leaves something, which the
library that inflates makes the path data of again; that the reader asks this library for one byte
more than the path data has does no harm. -/
theorem read_insertAll {start : FilenameTable} {paths : List String}
    (compress : Bytes → Bytes) (inflate : Bytes → Inflation) (compressing : Bool)
    (hstart : start = empty ∨ ∃ path, start = single path)
    (hlength : (start.insertAll paths).pathData.length < UInt64.size)
    (hcompress : compressing = true →
      (compress (start.insertAll paths).pathData).length < UInt64.size ∧
      compress (start.insertAll paths).pathData ≠ [] ∧
      inflate (compress (start.insertAll paths).pathData)
        = ⟨(start.insertAll paths).pathData, true⟩) :
    let encoded := (start.insertAll paths).encodeWith compress compressing
    (start.insertAll paths).files = (start.files ++ paths).eraseDups ∧
      encoded.hash = nameHash encoded.blob ∧
      readFilenamesWith (guarded inflate) encoded.blob = .ok (start.insertAll paths).files := by
  have hdistinct : start.files.eraseDups = start.files := by
    rcases hstart with rfl | ⟨path, rfl⟩
    · rfl
    · simp [single, List.eraseDups_cons]
  have hrestores (h : compressing = true) :
      (compress (start.insertAll paths).pathData).length < UInt64.size ∧
        Restores compress (guarded inflate) (start.insertAll paths).pathData := by
    obtain ⟨hstream, hne, hinflate⟩ := hcompress h
    exact ⟨hstream, hne, guarded_eq_some_iff.mpr ⟨hinflate, rfl⟩⟩
  exact ⟨files_insertAll paths hdistinct, rfl, readFilenamesWith_encodeWith hlength hrestores⟩

/-- A table with the empty path, one with a zero byte and one with characters of several bytes, of
which two are inserted twice; compressed by the compression that there is. -/
theorem read_insertAll_hostile :
    let table := (single "é").insertAll ["", "\x00", "é", "語", ""]
    (Zlib.compress table.pathData).length < UInt64.size ∧ Zlib.compress table.pathData ≠ [] ∧
      Zlib.inflation (Zlib.compress table.pathData) = ⟨table.pathData, true⟩ ∧
      table.files = ["é", "", "\x00", "語"] ∧
      readFilenames (table.encode true).blob = .ok ["é", "", "\x00", "語"] := by
  intro table
  have hdata : table.pathData = [2, 195, 169, 0, 1, 0, 3, 232, 170, 158] := by decide +kernel
  have hcompress : Zlib.compress table.pathData = [120, 218, 99, 58, 188, 146, 129, 145, 129, 249,
      197, 170, 121, 0, 16, 253, 3, 163] := by
    rw [hdata]
    decide +kernel
  have hne : Zlib.compress table.pathData ≠ [] := by
    rw [hcompress]
    exact List.cons_ne_nil _ _
  have hshort : (Zlib.compress table.pathData).length < UInt64.size := by
    rw [hcompress]
    decide
  have hinflate : Zlib.inflation (Zlib.compress table.pathData) = ⟨table.pathData, true⟩ := by
    rw [Zlib.inflation_eq_iff, hcompress, hdata]
    decide +kernel
  have hlength : table.pathData.length < UInt64.size := by
    rw [hdata]
    decide
  have hread := read_insertAll Zlib.compress Zlib.inflation true (.inr ⟨"é", rfl⟩) hlength
    fun _ => ⟨hshort, hne, hinflate⟩
  have hfiles : table.files = ["é", "", "\x00", "語"] := by decide
  refine ⟨hshort, hne, hinflate, hfiles, ?_⟩
  rw [readFilenames, Zlib.decompress?_eq_guarded, ← hfiles]
  exact hread.2.2

end FilenameTable

end SourceCoverage
