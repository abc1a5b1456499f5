import SourceCoverage.Zlib.Alphabet

/-!
# Inflation

Reads compressed blocks. Beside the output stands how much *room* is left: the caller knows how
long the result has to be, and data that would grow beyond that is refused, whatever it claims. The
window that copies are taken from is full of zeros before anything is written, so a copy may reach
back beyond the start of the output. Bits that run out, code words that stand for nothing and
ill-formed code tables end in `none`.
-/

namespace SourceCoverage.Zlib

open PrefixCode

/-- What has been inflated so far, and how many more bytes may follow. -/
structure Output where
  bytes : Array UInt8
  room : Nat

namespace Output

/-- The output with one more byte. -/
def push? (out : Output) (b : UInt8) : Option Output :=
  match out with
  | ⟨_, 0⟩ => none
  | ⟨bytes, room + 1⟩ => some ⟨bytes.push b, room⟩

/-- The output with several more bytes. -/
def pushAll? (out : Output) (bytes : Bytes) : Option Output := bytes.foldlM push? out

/-- The byte that stands `distance` bytes before the end; a zero if that lies before the start. -/
def back (out : Output) (distance : Nat) : UInt8 :=
  if distance ≤ out.bytes.size then out.bytes.getD (out.bytes.size - distance) 0 else 0

/-- The output with `length` more bytes, each of which repeats the one `distance` before it. -/
def copy? (distance : Nat) : (length : Nat) → Output → Option Output
  | 0, out => some out
  | length + 1, out => do copy? distance length (← out.push? (out.back distance))

end Output

/-! ### The contents of a block -/

/-- Reads a size whose class has the given position. -/
def readSize (classes : List SizeClass) (position : Nat) (bits : Bits) : Option (Nat × Bits) := do
  let c ← classes[position]?
  let (extra, bits) ← Bits.take? c.extraBits bits
  return (c.least + extra, bits)

/-- Reads the length of a copy, of which the class is known, and the distance that follows. -/
def readCopy (distances : Tree) (lengthClass : Nat) (bits : Bits) :
    Option ((Nat × Nat) × Bits) := do
  let (length, bits) ← readSize lengthClasses lengthClass bits
  let (position, bits) ← decode distances bits
  let (distance, bits) ← readSize distanceClasses position bits
  return ((length, distance), bits)

theorem readSize_length_le {classes : List SizeClass} {position size : Nat} {bits rest : Bits}
    (h : readSize classes position bits = some (size, rest)) : rest.length ≤ bits.length := by
  obtain ⟨_, _, h⟩ := Option.bind_eq_some_iff.1 h
  obtain ⟨⟨_, _⟩, htake, h⟩ := Option.bind_eq_some_iff.1 h
  obtain ⟨_, rfl⟩ := Prod.mk.inj (Option.some.inj h)
  exact Bits.take?_length_le htake

theorem readCopy_length_le {distances : Tree} {lengthClass : Nat} {copy : Nat × Nat}
    {bits rest : Bits} (h : readCopy distances lengthClass bits = some (copy, rest)) :
    rest.length ≤ bits.length := by
  obtain ⟨⟨_, _⟩, hlength, h⟩ := Option.bind_eq_some_iff.1 h
  obtain ⟨⟨_, _⟩, hposition, h⟩ := Option.bind_eq_some_iff.1 h
  obtain ⟨⟨_, _⟩, hdistance, h⟩ := Option.bind_eq_some_iff.1 h
  obtain ⟨_, rfl⟩ := Prod.mk.inj (Option.some.inj h)
  exact Nat.le_trans (readSize_length_le hdistance)
    (Nat.le_trans (Nat.le_of_lt (decode_shortens hposition)) (readSize_length_le hlength))

/-- Reads the symbols of a compressed block up to its end mark. -/
def readSymbols (literals distances : Tree) (out : Output) (bits : Bits) :
    Option (Output × Bits) :=
  match _h : decode literals bits with
  | none => none
  | some (symbol, rest) =>
    match Item.ofSymbol symbol with
    | .endOfBlock => some (out, rest)
    | .literal b =>
      match out.push? b with
      | none => none
      | some out => readSymbols literals distances out rest
    | .copy lengthClass =>
      match _h' : readCopy distances lengthClass rest with
      | none => none
      | some ((length, distance), rest') =>
        match out.copy? distance length with
        | none => none
        | some out => readSymbols literals distances out rest'
termination_by bits.length
decreasing_by
  · exact decode_shortens ‹_›
  · exact Nat.lt_of_le_of_lt (readCopy_length_le ‹_›) (decode_shortens ‹_›)

/-- Reads a block that holds its bytes as they are: from the next byte boundary on a 16-bit
length, its complement, and the bytes. -/
def readStored (out : Output) (bits : Bits) : Option (Output × Bits) := do
  let (length, bits) ← Bits.take? 16 bits.align
  let (complement, bits) ← Bits.take? 16 bits
  if length + complement ≠ 0xffff then none
  if bits.length < 8 * length then none
  let out ← out.pushAll? (Bits.toBytes (bits.take (8 * length)))
  return (out, bits.drop (8 * length))

/-! ### Code tables -/

/-- The order in which a block gives the code lengths of the code for code lengths. -/
def codeLengthOrder : List Nat :=
  [16, 17, 18, 0, 8, 7, 9, 6, 10, 5, 11, 4, 12, 3, 13, 2, 14, 1, 15]

/-- Reads `n` three-bit code lengths. -/
def readShortLengths : (n : Nat) → Bits → Option (List Nat × Bits)
  | 0, bits => some ([], bits)
  | n + 1, bits => do
    let (length, bits) ← Bits.take? 3 bits
    let (others, bits) ← readShortLengths n bits
    return (length :: others, bits)

/-- The code length that a symbol above 15 repeats after those in `reversed`, the last one first:
symbol 16 the last of them, 17 and 18 zero. With it stand the least number of repetitions, and the
number of bits that tell how many more there are. -/
def repetition? (reversed : List Nat) (symbol : Nat) : Option (Nat × SizeClass) :=
  match symbol with
  | 16 => reversed.head?.map fun last => (last, ⟨3, 2⟩)
  | 17 => some (0, ⟨3, 3⟩)
  | _ => some (0, ⟨11, 7⟩)

/-- Reads the code lengths that a symbol stands for, after those in `reversed`. -/
def readRun (reversed : List Nat) (symbol : Nat) (bits : Bits) : Option (List Nat × Bits) :=
  if symbol < 16 then some ([symbol], bits)
  else
    (repetition? reversed symbol).bind fun (length, c) =>
      (Bits.take? c.extraBits bits).map fun (extra, bits) =>
        (List.replicate (c.least + extra) length, bits)

theorem readRun_length_le {reversed lengths : List Nat} {symbol : Nat} {bits rest : Bits}
    (h : readRun reversed symbol bits = some (lengths, rest)) : rest.length ≤ bits.length := by
  unfold readRun at h
  split at h
  · obtain ⟨_, rfl⟩ := Prod.mk.inj (Option.some.inj h)
    exact Nat.le_refl _
  · obtain ⟨⟨_, _⟩, _, h⟩ := Option.bind_eq_some_iff.1 h
    obtain ⟨⟨_, _⟩, htake, h⟩ := Option.map_eq_some_iff.1 h
    obtain ⟨_, rfl⟩ := Prod.mk.inj h
    exact Bits.take?_length_le htake

/-- Reads code lengths until there are `total`; `reversed` holds those known, last one first. -/
def readLengths (code : Tree) (total : Nat) (reversed : List Nat) (bits : Bits) :
    Option (List Nat × Bits) :=
  if reversed.length = total then some (reversed.reverse, bits)
  else if total < reversed.length then none
  else
    match _h : decode code bits with
    | none => none
    | some (symbol, rest) =>
      match _h' : readRun reversed symbol rest with
      | none => none
      | some (lengths, rest') => readLengths code total (lengths ++ reversed) rest'
termination_by bits.length
decreasing_by exact Nat.lt_of_le_of_lt (readRun_length_le ‹_›) (decode_shortens ‹_›)

/-- The tree of a code, if the code is usable. -/
def usableTree? (lengths : List Nat) : Option Tree :=
  if isUsable lengths then some (tree lengths) else none

/-- Reads the code tables of a block that brings its own: the number of literal codes, distance
codes and code length codes, the code lengths of the last, and with their help those of the
first two. -/
def readTables (bits : Bits) : Option ((Tree × Tree) × Bits) := do
  let (literals, bits) ← Bits.take? 5 bits
  let (distances, bits) ← Bits.take? 5 bits
  let (others, bits) ← Bits.take? 4 bits
  if 286 < literals + 257 ∨ 30 < distances + 1 then none
  let (short, bits) ← readShortLengths (others + 4) bits
  let ordered := (List.range 19).map fun symbol =>
    ((codeLengthOrder.zip short).lookup symbol).getD 0
  if ¬ isComplete ordered then none
  let (lengths, bits) ←
    readLengths (tree ordered) (literals + 257 + (distances + 1)) [] bits
  let literalTree ← usableTree? (lengths.take (literals + 257))
  let distanceTree ← usableTree? (lengths.drop (literals + 257))
  return ((literalTree, distanceTree), bits)

/-! ### Blocks -/

/-- The tree of the fixed code for bytes, the end mark and lengths. -/
def fixedLiteralTree : Tree := tree fixedLiteralLengths

/-- The tree of the fixed code for distances. -/
def fixedDistanceTree : Tree := tree fixedDistanceLengths

/-- Reads the contents of a block of the given type. -/
def readBlock (type : Nat) (out : Output) (bits : Bits) : Option (Output × Bits) :=
  match type with
  | 0 => readStored out bits
  | 1 => readSymbols fixedLiteralTree fixedDistanceTree out bits
  | 2 => do
    let ((literals, distances), bits) ← readTables bits
    readSymbols literals distances out bits
  | _ => none

/-- Reads blocks up to the one that is marked as the last. There are at most as many blocks as
bits. -/
def readBlocks : (most : Nat) → Output → Bits → Option (Output × Bits)
  | 0, _, _ => none
  | most + 1, out, bits => do
    let (last, bits) ← Bits.take? 1 bits
    let (type, bits) ← Bits.take? 2 bits
    let (out, bits) ← readBlock type out bits
    if last = 1 then return (out, bits) else readBlocks most out bits

/-- The result of inflating the bits, which may not exceed `limit` bytes, and what follows the
last block. -/
def inflate? (limit : Nat) (bits : Bits) : Option (Bytes × Bits) := do
  let (out, rest) ← readBlocks bits.length ⟨#[], limit⟩ bits
  return (out.bytes.toList, rest)

end SourceCoverage.Zlib
