import SourceCoverage.Bytes

/-!
# Reading Damaged UTF-8

A text is read from arbitrary bytes by replacing whatever is not UTF-8. The replacement is as
small as it can be: each longest run of bytes that begins a well-formed character but does not
complete it becomes one U+FFFD, and so does each byte that begins none.

## Main results

* `Text.ofDamagedUtf8_utf8` — a well-formed text is read as it is.
-/

namespace SourceCoverage.Text

/-- What the first byte of a character announces: its own payload bits, the number of bytes that
follow, and the range of the second byte. The later bytes range from `0x80` to `0xBF`. -/
structure Lead where
  payload : Nat
  following : Nat
  low : Nat
  high : Nat

/-- The announcement of a first byte, if a character can begin with it. The narrower ranges
exclude overlong forms, surrogates and code points beyond U+10FFFF. -/
def lead? (b : Nat) : Option Lead :=
  if b < 0x80 then some ⟨b, 0, 0x80, 0xbf⟩
  else if b < 0xc2 then none
  else if b < 0xe0 then some ⟨b - 0xc0, 1, 0x80, 0xbf⟩
  else if b = 0xe0 then some ⟨0, 2, 0xa0, 0xbf⟩
  else if b = 0xed then some ⟨0xd, 2, 0x80, 0x9f⟩
  else if b < 0xf0 then some ⟨b - 0xe0, 2, 0x80, 0xbf⟩
  else if b = 0xf0 then some ⟨0, 3, 0x90, 0xbf⟩
  else if b < 0xf4 then some ⟨b - 0xf0, 3, 0x80, 0xbf⟩
  else if b = 0xf4 then some ⟨4, 3, 0x80, 0x8f⟩
  else none

/-- Reads `following` more bytes of a character. The answer is its code point, if the bytes
complete it, and the number of bytes that belong to it. -/
def follow (payload low high : Nat) : (following : Nat) → Bytes → Option Nat × Nat
  | 0, _ => (some payload, 0)
  | _ + 1, [] => (none, 0)
  | following + 1, b :: rest =>
    if low ≤ b.toNat ∧ b.toNat ≤ high then
      let (point, length) := follow (payload * 64 + b.toNat % 64) 0x80 0xbf following rest
      (point, length + 1)
    else (none, 0)

/-- The replacement for bytes that are not UTF-8. -/
def replacement : Char := '\ufffd'

/-- Reads character by character, with replacements. -/
def repair : Bytes → List Char
  | [] => []
  | b :: rest =>
    match lead? b.toNat with
    | none => replacement :: repair rest
    | some lead =>
      let (point, length) := follow lead.payload lead.low lead.high lead.following rest
      (point.map Char.ofNat).getD replacement :: repair (rest.drop length)
termination_by bytes => bytes.length
decreasing_by
  · simp
  · simp only [List.length_drop, List.length_cons]
    omega

/-- The text of the bytes: the one they encode, or else the repaired one. -/
def ofDamagedUtf8 (bytes : Bytes) : String :=
  (ofUtf8? bytes).getD (String.ofList (repair bytes))

/-- A well-formed text is read as it is. -/
@[simp] theorem ofDamagedUtf8_utf8 (text : String) : ofDamagedUtf8 (utf8 text) = text := by
  simp [ofDamagedUtf8]

end SourceCoverage.Text
