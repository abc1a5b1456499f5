import SourceCoverage.Identity
import SourceCoverage.Constant
import SourceCoverage.Error

/-!
# Records of the Coverage Sections

Two kinds of record reach the object file. The *table header* stands once in a module, in front
of the encoded filenames table: four 32-bit words, of which the second is the length of that
table, the fourth the version of the format, and the others zero. A *function record* stands for
every function that is still instrumented after optimisation: its name hash, the length of its
encoded mapping, its function hash, the hash of the filenames table, and the mapping.
-/

namespace SourceCoverage

/-! ### The table header -/

/-- The header of the filenames table. -/
structure TableHeader where
  filenamesLength : UInt32
  version : UInt32
  deriving Repr, DecidableEq

namespace TableHeader

/-- The version of the mapping format, counted from zero. -/
def currentVersion : UInt32 := 6

/-- The size of a header in bytes. -/
def byteSize : Nat := 16

/-- The header of an encoded table of the given length. -/
def ofLength (filenamesLength : UInt32) : TableHeader := ⟨filenamesLength, currentVersion⟩

/-- The bytes of a header. -/
def toBytes (header : TableHeader) : Bytes :=
  Bytes.ofUInt32 0 ++ Bytes.ofUInt32 header.filenamesLength
    ++ Bytes.ofUInt32 0 ++ Bytes.ofUInt32 header.version

/-- The header at the start of a section. -/
def parse (bytes : Bytes) : Except MappingError TableHeader :=
  if bytes.length < byteSize then .error (.malformed bytes.length .shortHeader)
  else .ok ⟨bytes.uint32At 4, bytes.uint32At 12⟩

/-- The header and the encoded table as one constant. -/
def toConstant (header : TableHeader) (filenames : Bytes) : Constant :=
  .struct [.struct [.u32 0, .u32 header.filenamesLength, .u32 0, .u32 header.version],
    .bytes filenames]

end TableHeader

/-! ### Function records -/

/-- The coverage record of a function. Its mapping is no longer than the length field of the
written record can tell. -/
structure FunctionRecord where
  nameHash : UInt64
  functionHash : UInt64
  filenamesHash : UInt64
  mapping : Bytes
  mapping_length_lt : mapping.length < UInt32.size
  deriving Repr, DecidableEq

namespace FunctionRecord

/-- The size in bytes of what comes before the mapping. -/
def fixedSize : Nat := 28

/-- The record of a function with the given encoded mapping, in a module with the given
filenames table. -/
def ofMapping (identity : FunctionIdentity) (filenamesHash : UInt64) (mapping : Bytes) :
    Except CoverageError FunctionRecord :=
  if h : mapping.length < UInt32.size then
    .ok ⟨identity.nameHash, identity.structuralHash, filenamesHash, mapping, h⟩
  else .error (.mappingTooLarge identity.name mapping.length)

/-- The length of the mapping as it is written. -/
def mappingLength (record : FunctionRecord) : UInt32 := UInt32.ofNat record.mapping.length

/-- The bytes of a record. -/
def toBytes (record : FunctionRecord) : Bytes :=
  Bytes.ofUInt64 record.nameHash ++ Bytes.ofUInt32 record.mappingLength
    ++ Bytes.ofUInt64 record.functionHash ++ Bytes.ofUInt64 record.filenamesHash
    ++ record.mapping

/-- The record that the bytes are; the length that it tells has to be that of the bytes behind
its fixed part. -/
def parse (bytes : Bytes) : Except MappingError FunctionRecord :=
  if bytes.length < fixedSize then .error (.malformed bytes.length .shortRecord)
  else
    let mapping := bytes.drop fixedSize
    if h : mapping.length = (bytes.uint32At 8).toNat then
      .ok ⟨bytes.uint64At 0, bytes.uint64At 12, bytes.uint64At 20, mapping,
        by rw [h]; exact (bytes.uint32At 8).toNat_lt⟩
    else .error (.malformed 8 .recordLength)

end FunctionRecord

end SourceCoverage
