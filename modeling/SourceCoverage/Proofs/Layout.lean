import SourceCoverage.Proofs.Results
import SourceCoverage.Record

/-!
# Reading Headers and Records Back

The header of a filenames table and the record of a function are read from the bytes that they are
laid out as: every word lies where the reader looks for it, and what follows the words is the table
or the mapping. As the initial value of a variable the header and the table are a structure; its
image is the bytes of the header, those of the table, and zeros up to the next multiple of four.

The words of a record are not aligned, and one of them tells the length of what follows. As this
word is checked against the bytes that are there, nothing is read as a record but what is written as
one.

## Main results

* `Bytes.uint32At_append`, `Bytes.uint64At_append`: a word is read where it was put.
* `TableHeader.image?_toConstant`: the image of a header and its table.
* `TableHeader.parse_append`, `FunctionRecord.parse_toBytes`: headers and records are read back.
* `FunctionRecord.toBytes_of_parse`: what is read as a record is its written form.
* `FunctionRecord.parse_bijective`: records and their written forms.
-/

namespace SourceCoverage

/-! ### Words within bytes -/

namespace Bytes

/-- A 32-bit word is read where it was put. -/
theorem uint32At_append {offset : Nat} {before : Bytes} (h : before.length = offset) (w : UInt32)
    (after : Bytes) : uint32At (before ++ (ofUInt32 w ++ after)) offset = w := by
  have htake : (ofUInt32 w ++ after).take 4 = ofUInt32 w := List.take_left' (length_ofUInt32 w)
  rw [uint32At, ← h, List.drop_left, htake, ofUInt32, toNatLE_ofNatLE,
    Nat.mod_eq_of_lt (by simpa using w.toNat_lt), UInt32.ofNat_toNat]

/-- A 64-bit word is read where it was put. -/
theorem uint64At_append {offset : Nat} {before : Bytes} (h : before.length = offset) (w : UInt64)
    (after : Bytes) : uint64At (before ++ (ofUInt64 w ++ after)) offset = w := by
  have htake : (ofUInt64 w ++ after).take 8 = ofUInt64 w := List.take_left' (length_ofUInt64 w)
  rw [uint64At, ← h, List.drop_left, htake, ofUInt64, toNatLE_ofNatLE,
    Nat.mod_eq_of_lt (by simpa using w.toNat_lt), UInt64.ofNat_toNat]

/-- A number of so many base-256 digits is below the power of 256. -/
theorem toNatLE_lt (bytes : Bytes) : toNatLE bytes < Nat.pow 256 bytes.length := by
  have h := toNatLE_ofNatLE bytes.length (toNatLE bytes)
  rw [ofNatLE_toNatLE] at h
  rw [h]
  exact Nat.mod_lt _ (Nat.pow_pos (by decide))

/-- The digits of a word, read as a number. -/
theorem ofNatLE_toNatLE_take {bytes : Bytes} {width : Nat} (h : width ≤ bytes.length) :
    ofNatLE width (toNatLE (bytes.take width)) = bytes.take width := by
  have hlength : (bytes.take width).length = width := List.length_take_of_le h
  simpa only [hlength] using ofNatLE_toNatLE (bytes.take width)

/-- A word of four bytes is the number that the bytes are. -/
theorem toNat_uint32At {bytes : Bytes} {offset : Nat} :
    (bytes.uint32At offset).toNat = toNatLE ((bytes.drop offset).take 4) := by
  have hlt := toNatLE_lt ((bytes.drop offset).take 4)
  have hle : Nat.pow 256 ((bytes.drop offset).take 4).length ≤ UInt32.size :=
    Nat.pow_le_pow_right (by decide) (List.length_take_le _ _)
  exact UInt32.toNat_ofNat_of_lt (Nat.lt_of_lt_of_le hlt hle)

/-- A word of eight bytes is the number that the bytes are. -/
theorem toNat_uint64At {bytes : Bytes} {offset : Nat} :
    (bytes.uint64At offset).toNat = toNatLE ((bytes.drop offset).take 8) := by
  have hlt := toNatLE_lt ((bytes.drop offset).take 8)
  have hle : Nat.pow 256 ((bytes.drop offset).take 8).length ≤ UInt64.size :=
    Nat.pow_le_pow_right (by decide) (List.length_take_le _ _)
  exact UInt64.toNat_ofNat_of_lt (Nat.lt_of_lt_of_le hlt hle)

/-- A 32-bit word is written as it was read, in front of what lies behind it. -/
theorem ofUInt32_uint32At_append {bytes : Bytes} {offset : Nat} (h : offset + 4 ≤ bytes.length) :
    ofUInt32 (bytes.uint32At offset) ++ bytes.drop (offset + 4) = bytes.drop offset := by
  have hwidth : 4 ≤ (bytes.drop offset).length := by
    rw [List.length_drop]
    omega
  rw [ofUInt32, toNat_uint32At, ofNatLE_toNatLE_take hwidth, ← List.drop_drop,
    List.take_append_drop]

/-- A 64-bit word is written as it was read, in front of what lies behind it. -/
theorem ofUInt64_uint64At_append {bytes : Bytes} {offset : Nat} (h : offset + 8 ≤ bytes.length) :
    ofUInt64 (bytes.uint64At offset) ++ bytes.drop (offset + 8) = bytes.drop offset := by
  have hwidth : 8 ≤ (bytes.drop offset).length := by
    rw [List.length_drop]
    omega
  rw [ofUInt64, toNat_uint64At, ofNatLE_toNatLE_take hwidth, ← List.drop_drop,
    List.take_append_drop]

end Bytes

/-! ### The table header -/

namespace TableHeader

variable (header : TableHeader) (filenames : Bytes)

/-- A header takes four words. -/
@[simp] theorem length_toBytes : header.toBytes.length = byteSize := by
  simp [toBytes, byteSize]

/-- **A header is read** from the bytes that start with it. -/
theorem parse_append (rest : Bytes) : parse (header.toBytes ++ rest) = .ok header := by
  have hlength : ¬(header.toBytes ++ rest).length < byteSize := by
    rw [List.length_append, length_toBytes]
    omega
  have hfilenames : (header.toBytes ++ rest).uint32At 4 = header.filenamesLength := by
    simp only [toBytes, List.append_assoc]
    exact Bytes.uint32At_append (Bytes.length_ofUInt32 0) header.filenamesLength _
  have hversion : (header.toBytes ++ rest).uint32At 12 = header.version := by
    let before := Bytes.ofUInt32 0 ++ Bytes.ofUInt32 header.filenamesLength ++ Bytes.ofUInt32 0
    have hbefore : before.length = 12 := by simp [before]
    rw [toBytes, List.append_assoc]
    exact Bytes.uint32At_append hbefore header.version rest
  rw [parse, if_neg hlength, hfilenames, hversion]

/-- **The image of a header and its table**: the bytes of the header, the table, and zeros up to the
next multiple of four. -/
theorem image?_toConstant : (header.toConstant filenames).image?
    = some (header.toBytes ++ filenames ++ Bytes.zeros ((4 - filenames.length % 4) % 4)) := by
  have hwords : (Constant.struct [.u32 0, .u32 header.filenamesLength, .u32 0,
      .u32 header.version]).image? = some header.toBytes := by
    simp [Constant.image?, Constant.imageOfAll?, Constant.size, Constant.endOfAll,
      Constant.alignmentOfAll, Constant.alignment, alignUp, Constant.fillTo, Bytes.zeros, toBytes]
  have hsize : (header.toConstant filenames).size = alignUp (byteSize + filenames.length) 4 := by
    simp [toConstant, Constant.size, Constant.endOfAll, Constant.alignmentOfAll,
      Constant.alignment, alignUp, byteSize]
  have hfields : Constant.imageOfAll? [] [.struct [.u32 0, .u32 header.filenamesLength, .u32 0,
      .u32 header.version], .bytes filenames] = some (header.toBytes ++ filenames) := by
    simp only [Constant.imageOfAll?, hwords]
    simp [Constant.image?, Constant.alignment, Constant.alignmentOfAll, alignUp,
      Constant.fillTo, Bytes.zeros, Nat.mod_one]
  have hfilling : alignUp (byteSize + filenames.length) 4 - (header.toBytes ++ filenames).length
      = (4 - filenames.length % 4) % 4 := by
    rw [List.length_append, length_toBytes, alignUp, byteSize]
    omega
  rw [toConstant] at hsize ⊢
  rw [Constant.image?, hfields, hsize, Option.map_some, Constant.fillTo, hfilling]

end TableHeader

/-! ### Function records -/

namespace FunctionRecord

/-- The bytes in front of the mapping of a record. -/
def fixedPart (record : FunctionRecord) : Bytes :=
  Bytes.ofUInt64 record.nameHash ++ Bytes.ofUInt32 record.mappingLength
    ++ Bytes.ofUInt64 record.functionHash ++ Bytes.ofUInt64 record.filenamesHash

/-- The fixed part has the same size in every record. -/
@[simp] theorem length_fixedPart (record : FunctionRecord) :
    record.fixedPart.length = fixedSize := by
  simp [fixedPart, fixedSize]

/-- The size of a written record. -/
theorem length_toBytes (record : FunctionRecord) :
    record.toBytes.length = fixedSize + record.mapping.length := by
  rw [show record.toBytes = record.fixedPart ++ record.mapping from rfl, List.length_append,
    length_fixedPart]

/-- The words of the fixed part are read where they were put. -/
theorem words_of_toBytes (record : FunctionRecord) :
    record.toBytes.uint64At 0 = record.nameHash ∧
      record.toBytes.uint32At 8 = record.mappingLength ∧
      record.toBytes.uint64At 12 = record.functionHash ∧
      record.toBytes.uint64At 20 = record.filenamesHash := by
  let name := Bytes.ofUInt64 record.nameHash
  let length := Bytes.ofUInt32 record.mappingLength
  let hash := Bytes.ofUInt64 record.functionHash
  have hlength : (name ++ length).length = 12 := by simp [name, length]
  have hhash : (name ++ length ++ hash).length = 20 := by simp [name, length, hash]
  refine ⟨?_, ?_, ?_, ?_⟩
  · rw [toBytes, List.append_assoc, List.append_assoc, List.append_assoc]
    exact Bytes.uint64At_append List.length_nil record.nameHash _
  · rw [toBytes, List.append_assoc, List.append_assoc, List.append_assoc]
    exact Bytes.uint32At_append (Bytes.length_ofUInt64 record.nameHash) record.mappingLength _
  · rw [toBytes, List.append_assoc, List.append_assoc]
    exact Bytes.uint64At_append hlength record.functionHash _
  · rw [toBytes, List.append_assoc]
    exact Bytes.uint64At_append hhash record.filenamesHash _

/-- **A record is read** from its bytes. -/
theorem parse_toBytes (record : FunctionRecord) : parse record.toBytes = .ok record := by
  obtain ⟨hname, htold, hfunction, hfilenames⟩ := record.words_of_toBytes
  have hlength : ¬record.toBytes.length < fixedSize := by
    rw [length_toBytes]
    omega
  have hmapping : record.toBytes.drop fixedSize = record.mapping :=
    List.drop_left' record.length_fixedPart
  have hchecked : record.mapping.length = (record.toBytes.uint32At 8).toNat := by
    rw [htold, mappingLength]
    exact (UInt32.toNat_ofNat_of_lt record.mapping_length_lt).symm
  rw [parse, if_neg hlength]
  simp only [hname, hfunction, hfilenames, hmapping]
  exact dif_pos hchecked

/-- The words of a record and its mapping, written behind one another, are the bytes that they were
read from. -/
theorem words_append_mapping {bytes : Bytes} (h : fixedSize ≤ bytes.length) :
    Bytes.ofUInt64 (bytes.uint64At 0) ++ Bytes.ofUInt32 (bytes.uint32At 8)
      ++ Bytes.ofUInt64 (bytes.uint64At 12) ++ Bytes.ofUInt64 (bytes.uint64At 20)
      ++ bytes.drop fixedSize = bytes := by
  rw [fixedSize] at h
  simp only [List.append_assoc]
  -- From the last word to the first, each is put back in front of what lies behind it.
  calc Bytes.ofUInt64 (bytes.uint64At 0) ++ (Bytes.ofUInt32 (bytes.uint32At 8) ++
        (Bytes.ofUInt64 (bytes.uint64At 12) ++
          (Bytes.ofUInt64 (bytes.uint64At 20) ++ bytes.drop (20 + 8))))
      = Bytes.ofUInt64 (bytes.uint64At 0) ++ (Bytes.ofUInt32 (bytes.uint32At 8) ++
          (Bytes.ofUInt64 (bytes.uint64At 12) ++ bytes.drop (12 + 8))) := by
        rw [Bytes.ofUInt64_uint64At_append (by omega)]
    _ = Bytes.ofUInt64 (bytes.uint64At 0) ++ (Bytes.ofUInt32 (bytes.uint32At 8) ++
          bytes.drop (8 + 4)) := by
        rw [Bytes.ofUInt64_uint64At_append (by omega)]
    _ = Bytes.ofUInt64 (bytes.uint64At 0) ++ bytes.drop (0 + 8) := by
        rw [Bytes.ofUInt32_uint32At_append (by omega)]
    _ = bytes := Bytes.ofUInt64_uint64At_append (by omega)

/-- Only the bytes of a record are read as that record. -/
theorem toBytes_of_parse {bytes : Bytes} {record : FunctionRecord}
    (h : parse bytes = .ok record) : record.toBytes = bytes := by
  rw [parse] at h
  obtain ⟨hlong, h⟩ := ite_error_eq_ok_iff.1 h
  by_cases hlength : (bytes.drop fixedSize).length = (bytes.uint32At 8).toNat
  · obtain rfl := Except.ok.inj ((dif_pos hlength).symm.trans h)
    have htold : UInt32.ofNat (bytes.drop fixedSize).length = bytes.uint32At 8 := by
      rw [hlength, UInt32.ofNat_toNat]
    simp only [toBytes, mappingLength, htold]
    exact words_append_mapping (Nat.not_lt.1 hlong)
  · cases (dif_neg hlength).symm.trans h

/-- Bytes are read as a record exactly if they hold the fixed part, and its length word tells how
many bytes come behind it. -/
theorem exists_parse_eq_ok_iff {bytes : Bytes} : (∃ record, parse bytes = .ok record) ↔
    fixedSize ≤ bytes.length ∧ (bytes.uint32At 8).toNat = bytes.length - fixedSize := by
  constructor
  · rintro ⟨record, h⟩
    obtain rfl := toBytes_of_parse h
    obtain ⟨-, htold, -, -⟩ := record.words_of_toBytes
    have hmapping : record.mappingLength.toNat = record.mapping.length :=
      UInt32.toNat_ofNat_of_lt record.mapping_length_lt
    rw [htold, hmapping, length_toBytes]
    omega
  · rintro ⟨hlong, htold⟩
    rw [parse, if_neg (Nat.not_lt.2 hlong)]
    exact ⟨_, dif_pos (by rw [List.length_drop, htold])⟩

/-- **Records and their bytes are in bijection.** -/
theorem parse_bijective :
    (∀ record : FunctionRecord, parse record.toBytes = .ok record) ∧
      ∀ bytes : Bytes,
        ((∃ record, parse bytes = .ok record) ↔
          28 ≤ bytes.length ∧ Bytes.toNatLE ((bytes.drop 8).take 4) = bytes.length - 28) ∧
        ∀ record, parse bytes = .ok record → record.toBytes = bytes := by
  refine ⟨parse_toBytes, fun bytes => ⟨?_, fun record => toBytes_of_parse⟩⟩
  rw [exists_parse_eq_ok_iff, Bytes.toNat_uint32At, fixedSize]

end FunctionRecord

end SourceCoverage
