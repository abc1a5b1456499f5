import SourceCoverage.Bytes

/-!
# Constants and Their Layout

The initial values of global data, and how they lie in memory on a 64-bit target. A scalar is
aligned to its size, bytes are not aligned, and a structure is aligned as its most demanding
field; its fields follow each other, each at the next offset that its alignment allows, and the
whole is filled up to a multiple of the structure's alignment. Filling bytes are zero.

The size of a constant is computed from its parts, and its image by writing them one after
another; only the image exists for constants without addresses alone.
-/

namespace SourceCoverage

/-- An initial value. -/
inductive Constant where
  | u32 (value : UInt32)
  | u64 (value : UInt64)
  | bytes (data : Bytes)
  | struct (fields : List Constant)
  /-- The address of a function or of global data. -/
  | address (symbol : String)
  /-- An array of 64-bit counters, all zero. -/
  | counters (count : UInt32)
  deriving Repr

/-- The least multiple of a positive alignment that is not below an offset. -/
def alignUp (offset alignment : Nat) : Nat :=
  offset + (alignment - offset % alignment) % alignment

namespace Constant

/-- The data of a constant that is nothing but bytes. -/
def bytes? : Constant → Option Bytes
  | bytes data => some data
  | _ => none

mutual

/-- The alignment of a constant in bytes. -/
def alignment : Constant → Nat
  | u32 _ => 4
  | u64 _ => 8
  | bytes _ => 1
  | struct fields => alignmentOfAll fields
  | address _ => 8
  | counters _ => 8

/-- The alignment of a structure with the given fields. -/
def alignmentOfAll : List Constant → Nat
  | [] => 1
  | field :: fields => max field.alignment (alignmentOfAll fields)

end

mutual

/-- The number of bytes that a constant takes, with the filling within and behind it. -/
def size : Constant → Nat
  | u32 _ => 4
  | u64 _ => 8
  | bytes data => data.length
  | struct fields => alignUp (endOfAll 0 fields) (alignmentOfAll fields)
  | address _ => 8
  | counters count => 8 * count.toNat

/-- The offset behind the last of the given fields when those before them end at `offset`. -/
def endOfAll (offset : Nat) : List Constant → Nat
  | [] => offset
  | field :: fields => endOfAll (alignUp offset field.alignment + field.size) fields

end

mutual

/-- The symbols that a constant refers to, in order. -/
def references : Constant → List String
  | address symbol => [symbol]
  | struct fields => referencesOfAll fields
  | _ => []

/-- The symbols that the given fields refer to, in order. -/
def referencesOfAll : List Constant → List String
  | [] => []
  | field :: fields => field.references ++ referencesOfAll fields

end

/-- Bytes filled up with zeros to a length. -/
def fillTo (length : Nat) (data : Bytes) : Bytes := data ++ Bytes.zeros (length - data.length)

mutual

/-- The bytes of a constant in memory, if they do not depend on any address. -/
def image? : Constant → Option Bytes
  | u32 value => some (Bytes.ofUInt32 value)
  | u64 value => some (Bytes.ofUInt64 value)
  | bytes data => some data
  | struct fields => (imageOfAll? [] fields).map (fillTo (struct fields).size)
  | address _ => none
  | counters count => some (Bytes.zeros (8 * count.toNat))

/-- The bytes of a structure up to the last of the given fields, from those before them. -/
def imageOfAll? (before : Bytes) : List Constant → Option Bytes
  | [] => some before
  | field :: fields => do
    let data ← field.image?
    imageOfAll? (fillTo (alignUp before.length field.alignment) before ++ data) fields

end

end Constant

end SourceCoverage
