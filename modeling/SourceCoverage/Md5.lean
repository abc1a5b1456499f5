import SourceCoverage.Bytes

/-!
# MD5 Digests

The 128-bit digest that keys coverage records and filename tables. It serves as a stable
identifier only. A message is padded to whole blocks of sixteen 32-bit words; each block is
mixed into four chaining words by sixty-four steps, and the digest is the four words that
remain, each with its least significant byte first.
-/

namespace SourceCoverage.Md5

/-- The four words of a digest, which also chain one block to the next. -/
structure Digest where
  a : UInt32
  b : UInt32
  c : UInt32
  d : UInt32
  deriving Repr, DecidableEq

/-- The words that the first block starts from. -/
def start : Digest := ⟨0x67452301, 0xefcdab89, 0x98badcfe, 0x10325476⟩

/-- The additive constant of each step: step `i` has the first 32 bits after the binary point of
`|sin (i + 1)|`. -/
def sines : List UInt32 :=
  [0xd76aa478, 0xe8c7b756, 0x242070db, 0xc1bdceee, 0xf57c0faf, 0x4787c62a, 0xa8304613, 0xfd469501,
   0x698098d8, 0x8b44f7af, 0xffff5bb1, 0x895cd7be, 0x6b901122, 0xfd987193, 0xa679438e, 0x49b40821,
   0xf61e2562, 0xc040b340, 0x265e5a51, 0xe9b6c7aa, 0xd62f105d, 0x02441453, 0xd8a1e681, 0xe7d3fbc8,
   0x21e1cde6, 0xc33707d6, 0xf4d50d87, 0x455a14ed, 0xa9e3e905, 0xfcefa3f8, 0x676f02d9, 0x8d2a4c8a,
   0xfffa3942, 0x8771f681, 0x6d9d6122, 0xfde5380c, 0xa4beea44, 0x4bdecfa9, 0xf6bb4b60, 0xbebfbc70,
   0x289b7ec6, 0xeaa127fa, 0xd4ef3085, 0x04881d05, 0xd9d4d039, 0xe6db99e5, 0x1fa27cf8, 0xc4ac5665,
   0xf4292244, 0x432aff97, 0xab9423a7, 0xfc93a039, 0x655b59c3, 0x8f0ccc92, 0xffeff47d, 0x85845dd1,
   0x6fa87e4f, 0xfe2ce6e0, 0xa3014314, 0x4e0811a1, 0xf7537e82, 0xbd3af235, 0x2ad7d2bb, 0xeb86d391]

/-- How far each round rotates; a round runs through its four amounts four times. -/
def rotations : Nat → List UInt32
  | 0 => [7, 12, 17, 22]
  | 1 => [5, 9, 14, 20]
  | 2 => [4, 11, 16, 23]
  | _ => [6, 10, 15, 21]

/-- The mixing function of a round. -/
def mix (round : Nat) (b c d : UInt32) : UInt32 :=
  match round with
  | 0 => (b &&& c) ||| (~~~b &&& d)
  | 1 => (d &&& b) ||| (~~~d &&& c)
  | 2 => b ^^^ c ^^^ d
  | _ => c ^^^ (b ||| ~~~d)

/-- The block word that step `i` adds. -/
def wordIndex (i : Nat) : Nat :=
  match i / 16 with
  | 0 => i % 16
  | 1 => (5 * i + 1) % 16
  | 2 => (3 * i + 5) % 16
  | _ => 7 * i % 16

/-- Rotates a word to the left by an amount between 1 and 31. -/
def rotateLeft (w amount : UInt32) : UInt32 := (w <<< amount) ||| (w >>> (32 - amount))

/-- One of the sixty-four steps on a block, given as the list of its sixteen words. -/
def step (block : List UInt32) (s : Digest) (i : Nat) (sine : UInt32) : Digest :=
  let round := i / 16
  let sum := s.a + mix round s.b s.c s.d + sine + block.getD (wordIndex i) 0
  ⟨s.d, s.b + rotateLeft sum ((rotations round).getD (i % 4) 0), s.b, s.c⟩

/-- Mixes one block into the chaining words. -/
def absorb (s : Digest) (block : List UInt32) : Digest :=
  let t := sines.zipIdx.foldl (fun s (sine, i) => step block s i sine) s
  ⟨s.a + t.a, s.b + t.b, s.c + t.c, s.d + t.d⟩

/-- A message with a one bit, zeros, and its length in bits, as a whole number of 64-byte
blocks. -/
def pad (message : Bytes) : Bytes :=
  message ++ 0x80 :: Bytes.zeros ((119 - message.length % 64) % 64)
    ++ Bytes.ofNatLE 8 (8 * message.length)

/-- The sixteen words of a block. -/
def words (block : Bytes) : List UInt32 :=
  (List.range 16).map fun i => block.uint32At (4 * i)

/-- Mixes a padded message into the chaining words, block by block. -/
def absorbAll (s : Digest) (message : Bytes) : Digest :=
  if message.length < 64 then s
  else absorbAll (absorb s (words (message.take 64))) (message.drop 64)
termination_by message.length
decreasing_by simp only [List.length_drop]; omega

/-- The digest of a message. -/
def digest (message : Bytes) : Digest := absorbAll start (pad message)

namespace Digest

/-- The sixteen bytes of a digest. -/
def toBytes (s : Digest) : Bytes :=
  Bytes.ofUInt32 s.a ++ Bytes.ofUInt32 s.b ++ Bytes.ofUInt32 s.c ++ Bytes.ofUInt32 s.d

/-- The first eight bytes as a little-endian word. -/
def low (s : Digest) : UInt64 := s.a.toUInt64 ||| s.b.toUInt64 <<< 32

/-- The last eight bytes as a little-endian word. -/
def high (s : Digest) : UInt64 := s.c.toUInt64 ||| s.d.toUInt64 <<< 32

/-- The digest as thirty-two hexadecimal digits. -/
def toHex (s : Digest) : String := Bytes.toHex s.toBytes

/-- The hexadecimal text under the name of its kind, as a diagnostic shows it. -/
def describe (s : Digest) : String := "Md5Digest(" ++ s.toHex ++ ")"

end Digest

end SourceCoverage.Md5
