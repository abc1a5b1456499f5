import SourceCoverage.Bytes

/-!
# Unsigned LEB128

The variable-length integers of the mapping format: base-128 digits, least significant first,
one digit a byte, with the high bit set on every byte but the last. Values are 64-bit words.
Three functions are defined independently of each other: the written form by division, its
size from the number of significant bits, and the reader by accumulation.

The reader accepts any number of superfluous zero digits that still fit ten bytes, so a value
has several readable forms; the writer produces the shortest.

## Main results

* `Leb128.length_writeNat_le` — an encoding takes at most ten bytes.
* `Leb128.length_pos_of_readFrom` — a value that is read takes at least one byte.
-/

namespace SourceCoverage.Leb128

/-- The base-128 digits of a number, least significant first, each but the last marked by its
high bit. -/
def digits (n : Nat) : Bytes :=
  if n < 128 then [UInt8.ofNat n] else UInt8.ofNat (n % 128 + 128) :: digits (n / 128)
termination_by n

/-- The shortest encoding of a 64-bit value. -/
def write (value : UInt64) : Bytes := digits value.toNat

/-- The shortest encoding of a number, taken modulo 2 ^ 64. -/
def writeNat (n : Nat) : Bytes := write (UInt64.ofNat n)

/-- The number of bytes of the shortest encoding: one for every seven significant bits, and one
for zero. -/
def size (value : UInt64) : Nat := (value.toNat.log2 + 7) / 7

/-- Reads the digits that remain of a value of which `shift` bits, `value`, are read already.
The answer is the whole value and the number of bytes read here. -/
def readFrom (shift value : Nat) : Bytes → Option (Nat × Nat)
  | [] => none
  | b :: rest =>
    let digit := b.toNat % 128
    if 64 ≤ shift ∨ shift = 63 ∧ 1 < digit then none
    else
      let value := value + digit <<< shift
      if b.toNat < 128 then some (value, 1)
      else (readFrom (shift + 7) value rest).map fun (value, length) => (value, length + 1)

/-- Reads the value at the start of the bytes, with the number of bytes it takes. There is none
if the bytes end within the value or if it needs more than 64 bits. -/
def read? (bytes : Bytes) : Option (UInt64 × Nat) :=
  (readFrom 0 0 bytes).map fun (value, length) => (UInt64.ofNat value, length)

/-! ### Digits -/

theorem digits_of_lt {n : Nat} (h : n < 128) : digits n = [UInt8.ofNat n] := by
  rw [digits, if_pos h]

theorem digits_of_le {n : Nat} (h : 128 ≤ n) :
    digits n = UInt8.ofNat (n % 128 + 128) :: digits (n / 128) := by
  rw [digits, if_neg (by omega)]

theorem digits_ne_nil (n : Nat) : digits n ≠ [] := by
  rw [digits]
  split <;> simp

/-- A number of at most seven bits for each byte fits into the bytes. -/
theorem length_digits_le {n k : Nat} (h : n < Nat.pow 128 (k + 1)) :
    (digits n).length ≤ k + 1 := by
  induction k generalizing n with
  | zero => simp [digits_of_lt (by simpa using h)]
  | succ k ih =>
    by_cases hlast : n < 128
    · simp [digits_of_lt hlast]
    · have hrest : n / 128 < Nat.pow 128 (k + 1) := by
        rw [Nat.pow_eq, Nat.pow_succ, ← Nat.pow_eq, Nat.mul_comm] at h
        exact Nat.div_lt_of_lt_mul h
      rw [digits_of_le (by omega), List.length_cons]
      have := ih hrest
      omega

/-- No encoding is longer than ten bytes. -/
theorem length_writeNat_le (n : Nat) : (writeNat n).length ≤ 10 := by
  have hlt : (UInt64.ofNat n).toNat < Nat.pow 128 (9 + 1) :=
    Nat.lt_trans (UInt64.toNat_lt _) (by decide)
  exact length_digits_le hlt

/-! ### Reading -/

/-- A value that is read takes at least one of the bytes, and no more than there are. -/
theorem length_pos_of_readFrom {shift value value' length : Nat} {bytes : Bytes}
    (h : readFrom shift value bytes = some (value', length)) :
    0 < length ∧ length ≤ bytes.length := by
  induction bytes generalizing shift value value' length with
  | nil => simp [readFrom] at h
  | cons b rest ih =>
    simp only [readFrom] at h
    split at h
    · simp at h
    · split at h
      · simp only [Option.some.injEq, Prod.mk.injEq] at h
        simp only [List.length_cons]
        omega
      · obtain ⟨⟨v, l⟩, hv, heq⟩ := Option.map_eq_some_iff.1 h
        have := ih hv
        simp only [Prod.mk.injEq] at heq
        simp only [List.length_cons]
        omega

end SourceCoverage.Leb128
