import SourceCoverage.Zlib.Alphabet

/-!
# Deflation

Compresses a byte string into one block with the fixed codes. The text is cut greedily: wherever
at least three bytes stand earlier within the window, the longest such stretch becomes a copy,
the nearest one among equals; every other byte becomes a literal.

What came before a place is kept as the list of the texts that start at each earlier place,
nearest first. A copy may overlap the place it is copied to, and then repeats itself; since those
texts run on past the place, their common beginning with what follows accounts for that.
-/

namespace SourceCoverage.Zlib

open PrefixCode

/-- A piece of compressed text. -/
inductive Token where
  | literal (b : UInt8)
  /-- The `length` bytes that stand `distance` bytes earlier. -/
  | copy (length distance : Nat)
  deriving Repr, DecidableEq

/-- The least length of a copy. -/
def minCopy : Nat := 3

/-- The greatest length of a copy. -/
def maxCopy : Nat := 258

/-- The greatest distance of a copy. The format allows for more; paths that have something in
common stand close together, and a short window keeps the search short. -/
def windowSize : Nat := 1024

/-- How far two texts agree, up to a limit. -/
def commonLength : (limit : Nat) → Bytes → Bytes → Nat
  | limit + 1, a :: as, b :: bs => if a = b then commonLength limit as bs + 1 else 0
  | _, _, _ => 0

/-- The length and distance of the longest copy, the nearest one among equals. The first of
`earlier` is `distance` bytes back. -/
def longestCopy (text : Bytes) (distance : Nat) : (earlier : List Bytes) → Nat × Nat
  | [] => (0, 0)
  | candidate :: earlier =>
    let length := commonLength maxCopy candidate text
    let other := longestCopy text (distance + 1) earlier
    if other.1 ≤ length then (length, distance) else other

/-- The texts that start at the first `n` places, last one first, before those in `earlier`. -/
def pushPlaces : (n : Nat) → (text : Bytes) → (earlier : List Bytes) → List Bytes
  | 0, _, earlier => earlier
  | n + 1, text, earlier => pushPlaces n text.tail (text :: earlier)

/-- Cuts a text into tokens. -/
def tokens (earlier : List Bytes) : Bytes → List Token
  | [] => []
  | b :: rest =>
    let window := earlier.take windowSize
    let (length, distance) := longestCopy (b :: rest) 1 window
    if minCopy ≤ length then
      .copy length distance
        :: tokens (pushPlaces length (b :: rest) window) (rest.drop (length - 1))
    else .literal b :: tokens ((b :: rest) :: window) rest
termination_by text => text.length
decreasing_by
  · simp only [List.length_drop, List.length_cons]
    omega
  · simp

/-! ### Written tokens -/

/-- The fixed code words for bytes, the end mark and lengths. -/
def fixedLiteralWords : List (Nat × Bits) := codeWords fixedLiteralLengths

/-- The fixed code words for distances. -/
def fixedDistanceWords : List (Nat × Bits) := codeWords fixedDistanceLengths

/-- The position of the last class that a size belongs to, and the bits that pick the size out
of it. -/
def classify (classes : List SizeClass) (size : Nat) : Nat × Bits :=
  match (classes.zipIdx.filter (·.1.contains size)).getLast? with
  | some (c, position) => (position, Bits.ofNat c.extraBits (size - c.least))
  | none => (0, [])

/-- The code word of an item. -/
def Item.toBits (item : Item) : Bits := wordOf fixedLiteralWords item.symbol

/-- The bits of a token. -/
def Token.toBits : Token → Bits
  | literal b => (Item.literal b).toBits
  | copy length distance =>
    let (lengthClass, lengthBits) := classify lengthClasses length
    let (distanceClass, distanceBits) := classify distanceClasses distance
    (Item.copy lengthClass).toBits ++ lengthBits
      ++ wordOf fixedDistanceWords distanceClass ++ distanceBits

/-- A text as one block, marked as the last, with the fixed codes. -/
def deflate (text : Bytes) : Bits :=
  true :: Bits.ofNat 2 1 ++ (tokens [] text).flatMap Token.toBits ++ Item.endOfBlock.toBits

end SourceCoverage.Zlib
