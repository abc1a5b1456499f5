/-!
# Byte Strings and Little-Endian Words

Everything this library writes into an object file is a byte string, and every word in it is
stored with its least significant byte first, whatever machine runs the program. A byte string
is a list of bytes, so that the encodings can be reasoned about by induction; a word of `w`
bytes is the list of the `w` low base-256 digits of its value.

## Main results

* `Bytes.length_ofNatLE` — a word of width `w` takes exactly `w` bytes.
* `Bytes.toNatLE_ofNatLE` — reading a word gives its value back, modulo its width.
* `Bytes.ofNatLE_toNatLE` — writing what was read gives the same bytes.
-/

namespace SourceCoverage

/-- A byte string. -/
abbrev Bytes := List UInt8

namespace Bytes

/-- A run of zero bytes. -/
def zeros (n : Nat) : Bytes := List.replicate n 0

/-- The `width` low base-256 digits of a number, least significant first. -/
def ofNatLE : (width : Nat) → Nat → Bytes
  | 0, _ => []
  | width + 1, n => UInt8.ofNat n :: ofNatLE width (n / 256)

/-- The number whose base-256 digits, least significant first, are the given bytes. -/
def toNatLE : Bytes → Nat
  | [] => 0
  | b :: rest => b.toNat + 256 * toNatLE rest

/-- The four bytes of a 32-bit word. -/
def ofUInt32 (w : UInt32) : Bytes := ofNatLE 4 w.toNat

/-- The eight bytes of a 64-bit word. -/
def ofUInt64 (w : UInt64) : Bytes := ofNatLE 8 w.toNat

/-- The 32-bit word that starts at `offset`; bytes past the end count as zero. -/
def uint32At (bytes : Bytes) (offset : Nat) : UInt32 :=
  UInt32.ofNat (toNatLE ((bytes.drop offset).take 4))

/-- The 64-bit word that starts at `offset`; bytes past the end count as zero. -/
def uint64At (bytes : Bytes) (offset : Nat) : UInt64 :=
  UInt64.ofNat (toNatLE ((bytes.drop offset).take 8))

/-! ### Words and their bytes -/

@[simp] theorem length_zeros (n : Nat) : (zeros n).length = n := by simp [zeros]

@[simp] theorem length_ofNatLE (width n : Nat) : (ofNatLE width n).length = width := by
  induction width generalizing n with
  | zero => rfl
  | succ width ih => simp [ofNatLE, ih]

@[simp] theorem length_ofUInt32 (w : UInt32) : (ofUInt32 w).length = 4 := length_ofNatLE ..

@[simp] theorem length_ofUInt64 (w : UInt64) : (ofUInt64 w).length = 8 := length_ofNatLE ..

/-- Reading a word of `width` bytes gives its value back, modulo 256 to the power of `width`. -/
theorem toNatLE_ofNatLE (width n : Nat) : toNatLE (ofNatLE width n) = n % Nat.pow 256 width := by
  induction width generalizing n with
  | zero => simp [ofNatLE, toNatLE, Nat.mod_one]
  | succ width ih =>
    have split : n % Nat.pow 256 (width + 1) = n % 256 + 256 * (n / 256 % Nat.pow 256 width) := by
      rw [Nat.pow_eq, Nat.pow_eq, Nat.pow_succ, Nat.mul_comm (256 ^ width) 256, Nat.mod_mul]
    simp only [ofNatLE, toNatLE, ih, UInt8.toNat_ofNat', split]

/-- Writing what was read gives the same bytes. -/
theorem ofNatLE_toNatLE (bytes : Bytes) : ofNatLE bytes.length (toNatLE bytes) = bytes := by
  induction bytes with
  | nil => rfl
  | cons b rest ih =>
    have hb := b.toNat_lt
    have low : UInt8.ofNat (b.toNat + 256 * toNatLE rest) = b := by
      apply UInt8.toNat_inj.1
      rw [UInt8.toNat_ofNat']
      omega
    have high : (b.toNat + 256 * toNatLE rest) / 256 = toNatLE rest := by omega
    simp only [List.length_cons, toNatLE, ofNatLE, low, high, ih]

/-! ### Hexadecimal text -/

/-- The lowercase hexadecimal digit of a number below sixteen. -/
def hexDigit (n : Nat) : Char := Nat.digitChar (n % 16)

/-- The two lowercase hexadecimal digits of each byte. -/
def toHex (bytes : Bytes) : String :=
  String.ofList (bytes.flatMap fun b => [hexDigit (b.toNat / 16), hexDigit b.toNat])

end Bytes

/-- The bytes of a text in UTF-8. -/
def utf8 (text : String) : Bytes := text.toUTF8.data.toList

/-- The text whose UTF-8 form the bytes are, if they are well formed. -/
def ofUtf8? (bytes : Bytes) : Option String := String.fromUTF8? ⟨bytes.toArray⟩

/-- The UTF-8 form of a text is read back as that text. -/
@[simp] theorem ofUtf8?_utf8 (text : String) : ofUtf8? (utf8 text) = some text := by
  have bytes : (⟨(utf8 text).toArray⟩ : ByteArray) = text.toByteArray := by
    simp [utf8]
  rw [ofUtf8?, bytes, String.fromUTF8?, dif_pos text.isValidUTF8]
  rfl

/-- Only the UTF-8 form of a text is read as that text. -/
theorem utf8_of_ofUtf8? {bytes : Bytes} {text : String} (h : ofUtf8? bytes = some text) :
    utf8 text = bytes := by
  unfold ofUtf8? String.fromUTF8? at h
  split at h
  · obtain rfl := Option.some.inj h
    simp [utf8, String.fromUTF8]
  · simp at h

end SourceCoverage
