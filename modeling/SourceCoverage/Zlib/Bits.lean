import SourceCoverage.Bytes

/-!
# Bit Strings

Compressed data is a string of bits that fills bytes from the least significant bit up. Numbers
stand in it with their least significant bit first, prefix codes with their most significant bit
first.

## Main results

* `Bits.take?_ofNat` — a number is read back from its bits.
-/

namespace SourceCoverage

/-- A string of bits. -/
abbrev Bits := List Bool

namespace Bits

/-- The `width` low bits of a number, least significant first. -/
def ofNat : (width : Nat) → Nat → Bits
  | 0, _ => []
  | width + 1, n => (n % 2 == 1) :: ofNat width (n / 2)

/-- The number whose bits, least significant first, are the given ones. -/
def toNat : Bits → Nat
  | [] => 0
  | b :: rest => b.toNat + 2 * toNat rest

/-- The bits of a byte string. -/
def ofBytes (bytes : Bytes) : Bits := bytes.flatMap fun b => ofNat 8 b.toNat

/-- The bytes that hold a bit string; the last one is filled up with zero bits. -/
def toBytes (bits : Bits) : Bytes :=
  if bits = [] then [] else UInt8.ofNat (toNat (bits.take 8)) :: toBytes (bits.drop 8)
termination_by bits.length
decreasing_by
  cases bits
  · contradiction
  · simp only [List.length_drop, List.length_cons]
    omega

/-- Takes a number of `width` bits, with the bits after it. -/
def take? : (width : Nat) → Bits → Option (Nat × Bits)
  | 0, bits => some (0, bits)
  | _ + 1, [] => none
  | width + 1, b :: rest => do
    let (n, rest) ← take? width rest
    return (b.toNat + 2 * n, rest)

/-- The bits from the next byte boundary on. A byte boundary lies wherever a whole number of
bytes remains. -/
def align (bits : Bits) : Bits := bits.drop (bits.length % 8)

/-- Taking a number leaves no more bits than there were. -/
theorem take?_length_le {width n : Nat} {bits rest : Bits}
    (h : take? width bits = some (n, rest)) : rest.length ≤ bits.length := by
  induction width generalizing n bits rest with
  | zero => simp_all [take?]
  | succ width ih =>
    cases bits with
    | nil => simp [take?] at h
    | cons b bits =>
      simp only [take?, Option.bind_eq_bind, Option.bind_eq_some_iff, Prod.exists] at h
      obtain ⟨m, rest', hm, heq⟩ := h
      have := ih hm
      simp only [Option.pure_def, Option.some.injEq, Prod.mk.injEq] at heq
      rw [List.length_cons, ← heq.2]
      omega

/-- A number is read back from its bits. -/
theorem take?_ofNat (width n : Nat) (rest : Bits) :
    take? width (ofNat width n ++ rest) = some (n % Nat.pow 2 width, rest) := by
  induction width generalizing n with
  | zero => simp [take?, ofNat, Nat.mod_one]
  | succ width ih =>
    have low : (n % 2 == 1).toNat = n % 2 := by
      rcases Nat.mod_two_eq_zero_or_one n with h | h <;> simp [h]
    have split : n % Nat.pow 2 (width + 1) = n % 2 + 2 * (n / 2 % Nat.pow 2 width) := by
      rw [Nat.pow_eq, Nat.pow_eq, Nat.pow_succ, Nat.mul_comm (2 ^ width) 2, Nat.mod_mul]
    simpa [take?, ofNat, ih, low] using split.symm

end Bits

end SourceCoverage
