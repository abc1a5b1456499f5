import SourceCoverage.Filenames
import SourceCoverage.Proofs.Mapping.References

/-!
# Encoded Data Ends Where It Ends

Mapping data and encoded filenames tables stand one behind another in an object file, and nothing
but a length that is kept elsewhere tells where each of them ends. The decoders need no such
length to notice that it is wrong. A byte string that is decoded is so from its first byte to its
last one, so that none of its proper prefixes is decoded, and no byte string that goes on behind it:
the decoders are *self-delimiting*.

Of the inflation of a compressed table this asks nothing but that the same stream has always the
same outcome.

## Main results

* `SelfDelimiting.of_longer`: prefixes are refused if longer byte strings are.
* `Reader.TakesAll.selfDelimiting`: a decoder that takes all bytes is self-delimiting.
* `selfDelimiting_decoders`: the decoders of mappings and of filenames tables are.
-/

namespace SourceCoverage

open Reader

/-- A decoder is **self-delimiting** if a byte string that it accepts can be neither cut short nor
continued: it refuses every proper prefix, and with `trailing` every byte string that goes on, at
the first byte behind the one that it accepts. -/
structure SelfDelimiting {α : Type} (decode : Bytes → Except MappingError α) (trailing : Defect) :
    Prop where
  shorter : ∀ {bytes : Bytes} {value : α}, decode bytes = .ok value →
    ∀ start rest, bytes = start ++ rest → rest ≠ [] → ∃ e, decode start = .error e
  longer : ∀ {bytes : Bytes} {value : α}, decode bytes = .ok value →
    ∀ rest, rest ≠ [] → decode (bytes ++ rest) = .error (.malformed bytes.length trailing)

/-- A prefix that were accepted could not go on to a byte string that is. -/
theorem SelfDelimiting.of_longer {α : Type} {decode : Bytes → Except MappingError α}
    {trailing : Defect} (h : ∀ {bytes : Bytes} {value : α}, decode bytes = .ok value →
      ∀ rest, rest ≠ [] → decode (bytes ++ rest) = .error (.malformed bytes.length trailing)) :
    SelfDelimiting decode trailing where
  shorter := by
    rintro _ value hvalue start rest rfl hrest
    cases hstart : decode start with
    | error e => exact ⟨e, rfl⟩
    | ok value' => cases hvalue.symm.trans (h hstart rest hrest)
  longer := h

/-- **A decoder that takes all bytes is self-delimiting**, whatever it makes of what it took. -/
theorem Reader.TakesAll.selfDelimiting {α β : Type} {reader : Reader α} {defect : Defect}
    {P : α → Nat → Prop} (h : TakesAll reader defect P)
    (complete : α × Cursor → Except MappingError β) :
    SelfDelimiting (fun bytes => reader.run (Cursor.start bytes) >>= complete) defect := by
  refine .of_longer fun {bytes value} hvalue rest hrest => ?_
  change Except.bind (reader (Cursor.start bytes)) complete = .ok value at hvalue
  change Except.bind (reader (Cursor.start (bytes ++ rest))) complete = _
  cases hread : reader (Cursor.start bytes) with
  | error e =>
      rw [hread] at hvalue
      cases hvalue
  | ok read =>
      have hrefuses := (h _ read.1 read.2 hread).2 rest hrest
      rw [Cursor.start] at hrefuses ⊢
      rw [hrefuses]
      simp [Except.bind]

/-! ### Filenames tables -/

/-- Path data is taken by its length, as it is or compressed. -/
theorem takes_readPathData (inflate : Nat → Bytes → Option Bytes) (length compressedLength : Nat) :
    Takes (readPathData inflate length compressedLength) fun _ _ => True := by
  unfold readPathData
  split
  · exact (Takes.take length).mono fun _ _ _ => trivial
  · refine (Takes.take compressedLength).bind fun stream _ _ => ?_
    split
    · exact .pure trivial
    · exact .fail

/-- A table is read from all the bytes. -/
theorem takesAll_readTable (inflate : Nat → Bytes → Option Bytes) :
    TakesAll (readTable inflate) .afterTable fun _ _ => True := by
  refine TakesAll.bind .uleb fun count _ _ => ?_
  refine TakesAll.bind .uleb fun length _ _ => ?_
  refine TakesAll.bind .uleb fun compressedLength _ _ => ?_
  exact TakesAll.bind (takes_readPathData inflate _ _) fun data _ _ => .finish trivial

/-- **Decodable byte strings are delimited**: those of mappings, and those of filenames tables,
compressed or not, whatever inflation makes of a stream. -/
theorem selfDelimiting_decoders : SelfDelimiting Mapping.decode .afterRegions ∧
    ∀ inflate, SelfDelimiting (readFilenamesWith inflate) .afterTable := by
  refine ⟨?_, fun inflate => (takesAll_readTable inflate).selfDelimiting _⟩
  have hdecode : Mapping.decode
      = fun bytes => Mapping.read.run (Cursor.start bytes) >>= fun read => .ok read.1 := by
    funext bytes
    rw [Mapping.decode]
    cases Mapping.read.run (Cursor.start bytes) <;> rfl
  rw [hdecode]
  exact Mapping.takesAll_read.selfDelimiting _

/-- A filenames table of one path, with its path data compressed. -/
def compressedTable : Bytes := [1, 4, 12, 120, 218, 99, 78, 212, 75, 6, 0, 1, 242, 0, 246]

/-- The mapping of one region goes on nowhere behind its end column, and the compressed table stops
nowhere before the end of its stream, be it within the checksum. -/
theorem selfDelimiting_placeholder :
    Mapping.decode [1, 0, 0, 1, 1, 1, 1, 0, 10] = .ok ⟨[0], [], [Region.placeholder]⟩ ∧
    (∀ rest, rest ≠ [] → Mapping.decode ([1, 0, 0, 1, 1, 1, 1, 0, 10] ++ rest)
      = .error (.malformed 9 .afterRegions)) ∧
    compressedTable = (FilenameTable.single "a.c").blob
      (some (Zlib.compress (FilenameTable.single "a.c").pathData)) ∧
    readFilenamesWith Zlib.decompress? compressedTable = .ok ["a.c"] ∧
    ∀ count < 15, ∃ e,
      readFilenamesWith Zlib.decompress? (compressedTable.take count) = .error e := by
  have hmapping : Mapping.decode [1, 0, 0, 1, 1, 1, 1, 0, 10]
      = .ok ⟨[0], [], [Region.placeholder]⟩ := rfl
  have htable : readFilenamesWith Zlib.decompress? compressedTable = .ok ["a.c"] := by
    decide +kernel
  obtain ⟨hmappings, htables⟩ := selfDelimiting_decoders
  refine ⟨hmapping, hmappings.longer hmapping, by decide +kernel, htable, fun count hcount => ?_⟩
  refine (htables _).shorter htable _ (compressedTable.drop count) ?_ ?_
  · exact (List.take_append_drop count compressedTable).symm
  · exact mt List.drop_eq_nil_iff.1 (Nat.not_le.2 hcount)

end SourceCoverage
