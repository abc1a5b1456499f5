import SourceCoverage.Zlib.Deflate
import SourceCoverage.Zlib.Inflate

/-!
# Compressed Streams

A stream frames compressed blocks: two bytes before them name the method and the size of the
window, and four bytes behind them hold a checksum of the text, most significant byte first.
Reading checks both, and takes no notice of what follows the checksum.
-/

namespace SourceCoverage.Zlib

/-- The modulus of the checksum, the greatest prime below 2 ^ 16. -/
def adlerModulus : Nat := 65521

/-- The checksum of a text: the sum of its bytes plus one, and above it the sum of the values
that this sum takes after each byte. -/
def adler32 (text : Bytes) : Nat :=
  let (sum, sums) := text.foldl (fun (sum, sums) b =>
    let sum := (sum + b.toNat) % adlerModulus
    (sum, (sums + sum) % adlerModulus)) (1, 0)
  sums <<< 16 + sum

/-- The two bytes that announce the one method there is, the largest window, no preset
dictionary, and the highest effort. -/
def streamHeader : Bytes := [0x78, 0xda]

/-- Whether two bytes announce a stream that can be read: the one method, a window of at most
32 KiB, no preset dictionary, and a check sum of the two bytes themselves. -/
def acceptsHeader (cmf flg : UInt8) : Bool :=
  (cmf.toNat * 256 + flg.toNat) % 31 == 0 && cmf.toNat % 16 == 8 && cmf.toNat / 16 ≤ 7
    && flg.toNat / 32 % 2 == 0

/-- A 32-bit number, most significant byte first. -/
def bigEndian32 (n : Nat) : Bytes := (Bytes.ofNatLE 4 n).reverse

/-- The stream of a text. -/
def compress (text : Bytes) : Bytes :=
  streamHeader ++ Bits.toBytes (deflate text) ++ bigEndian32 (adler32 text)

/-- The text of the stream that the bytes start with, if that is exactly `length` bytes long. -/
def decompress? (length : Nat) : Bytes → Option Bytes
  | cmf :: flg :: body => do
    if ¬ acceptsHeader cmf flg then none
    let (text, rest) ← inflate? length (Bits.ofBytes body)
    let (checksum, _) ← Bits.take? 32 rest.align
    if Bytes.toNatLE (bigEndian32 checksum) ≠ adler32 text then none
    if text.length ≠ length then none
    return text
  | _ => none

end SourceCoverage.Zlib
