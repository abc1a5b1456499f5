import Mathlib.Algebra.BigOperators.Fin
import Mathlib.Data.Nat.ModEq
import Mathlib.Tactic.Ring
import SourceCoverage.Identity

/-!
# The Function Hash as a Polynomial

The function hash takes one byte after another into a 64-bit word, by a shift and two additions
that wrap around. What comes out is the value of one polynomial in 33, whose coefficients are the
seed and the bytes, reduced *once*: what the word loses on the way is a multiple of `2 ^ 64`, and
stays one under all that follows. So the hash of a name is known from that of a first part and the
bytes behind it. As 33 is odd, nothing else is lost in a step, and names that differ in hash do so
behind any common ending.

## Main results

* `functionHashStep_eq`: a step multiplies by 33 and adds the byte.
* `toNat_foldl_functionHashStep`: several steps evaluate a polynomial modulo `2 ^ 64`.
* `functionHash_polynomial`: the hash of a name, and of a name in two parts, in closed form.
* `functionHash_append_inj`: a common ending makes no hashes equal, and none different.
-/

namespace SourceCoverage

/-- The polynomial in 33 whose coefficients are a seed and the bytes, the seed that of the highest
power and the last byte the constant one. -/
def hashPolynomial (seed : Nat) (bytes : Bytes) : Nat :=
  seed * 33 ^ bytes.length + ∑ i : Fin bytes.length, bytes[i].toNat * 33 ^ (bytes.length - 1 - i)

/-! ### One step -/

/-- A step multiplies by 33 and adds the byte, with wrap-around. -/
theorem functionHashStep_eq (hash : UInt64) (b : UInt8) :
    functionHashStep hash b = hash * 33 + b.toUInt64 := by
  have hshift : hash <<< 5 + hash = hash * 33 := by
    have hpower : 2 ^ (UInt64.toNat 5 % 64) = 32 := rfl
    have hfactor : UInt64.toNat 33 = 33 := rfl
    rw [← UInt64.toNat_inj, UInt64.toNat_add, UInt64.toNat_shiftLeft, UInt64.toNat_mul,
      Nat.shiftLeft_eq, hpower, hfactor]
    omega
  rw [functionHashStep, hshift]

/-- A step, on numbers. -/
theorem toNat_functionHashStep (hash : UInt64) (b : UInt8) :
    (functionHashStep hash b).toNat = (hash.toNat * 33 + b.toNat) % 2 ^ 64 := by
  rw [functionHashStep_eq, UInt64.toNat_add, UInt64.toNat_mul, UInt8.toNat_toUInt64,
    Nat.mod_add_mod]
  rfl

/-- Multiplication by 33 is undone by that with its inverse modulo `2 ^ 64`, so that a step tells
the hash before it. -/
theorem functionHashStep_inj {hash other : UInt64} {b : UInt8} :
    functionHashStep hash b = functionHashStep other b ↔ hash = other := by
  refine ⟨fun h => ?_, fun h => h ▸ rfl⟩
  have hinverse : (33 : UInt64) * 0x0f83e0f83e0f83e1 = 1 := by decide
  rw [functionHashStep_eq, functionHashStep_eq, UInt64.add_left_inj] at h
  calc hash = hash * 33 * 0x0f83e0f83e0f83e1 := by rw [UInt64.mul_assoc, hinverse, UInt64.mul_one]
    _ = other * 33 * 0x0f83e0f83e0f83e1 := by rw [h]
    _ = other := by rw [UInt64.mul_assoc, hinverse, UInt64.mul_one]

/-! ### Several steps -/

/-- The first byte goes into the seed. -/
theorem hashPolynomial_cons (seed : Nat) (b : UInt8) (bytes : Bytes) :
    hashPolynomial seed (b :: bytes) = hashPolynomial (seed * 33 + b.toNat) bytes := by
  have hsum : ∑ i : Fin (b :: bytes).length,
        (b :: bytes)[i].toNat * 33 ^ ((b :: bytes).length - 1 - i)
      = b.toNat * 33 ^ bytes.length
        + ∑ i : Fin bytes.length, bytes[i].toNat * 33 ^ (bytes.length - 1 - i) := by
    refine (Fin.sum_univ_succ _).trans (congrArg₂ (· + ·) rfl ?_)
    refine Finset.sum_congr rfl fun i _ => ?_
    have hplace : (b :: bytes).length - 1 - i.succ = bytes.length - 1 - i := by
      simp only [List.length_cons, Fin.val_succ]
      omega
    rw [hplace]
    rfl
  rw [hashPolynomial, hashPolynomial, hsum, List.length_cons, pow_succ]
  ring

/-- What a word loses of the seed is lost of the polynomial. -/
theorem hashPolynomial_mod (seed : Nat) (bytes : Bytes) :
    hashPolynomial (seed % 2 ^ 64) bytes % 2 ^ 64 = hashPolynomial seed bytes % 2 ^ 64 :=
  ((Nat.mod_modEq seed (2 ^ 64)).mul_right _).add_right _

/-- **Several steps evaluate a polynomial modulo `2 ^ 64`.** Induction on the bytes for any hash to
start from; only the last remainder is left, as each step's own is one of the seed. -/
theorem toNat_foldl_functionHashStep (hash : UInt64) (bytes : Bytes) :
    (bytes.foldl functionHashStep hash).toNat = hashPolynomial hash.toNat bytes % 2 ^ 64 := by
  induction bytes generalizing hash with
  | nil =>
      have hempty : hashPolynomial hash.toNat [] = hash.toNat := by simp [hashPolynomial]
      rw [List.foldl_nil, hempty, Nat.mod_eq_of_lt hash.toNat_lt]
  | cons b bytes ih =>
      rw [List.foldl_cons, ih, toNat_functionHashStep, hashPolynomial_mod, hashPolynomial_cons]

/-- Several steps tell the hash before them. -/
theorem foldl_functionHashStep_inj {hash other : UInt64} {bytes : Bytes} :
    bytes.foldl functionHashStep hash = bytes.foldl functionHashStep other ↔ hash = other := by
  induction bytes generalizing hash other with
  | nil => rfl
  | cons b bytes ih => rw [List.foldl_cons, List.foldl_cons, ih, functionHashStep_inj]

/-! ### Names -/

/-- **The function hash in closed form.** It is the polynomial of a name's bytes with the seed 5381,
modulo `2 ^ 64`; and of a name in two parts it is the polynomial of the second part's bytes with the
hash of the first part as the seed. -/
theorem functionHash_polynomial :
    (∀ name, (functionHash name).toNat = hashPolynomial 5381 name % 2 ^ 64) ∧
      ∀ first rest, (functionHash (first ++ rest)).toNat
        = hashPolynomial (functionHash first).toNat rest % 2 ^ 64 := by
  refine ⟨fun name => toNat_foldl_functionHashStep functionHashSeed name, fun first rest => ?_⟩
  rw [functionHash_append, toNat_foldl_functionHashStep]

/-- **A common ending makes no hashes equal, and none different.** -/
theorem functionHash_append_inj {first other rest : Bytes} :
    functionHash (first ++ rest) = functionHash (other ++ rest)
      ↔ functionHash first = functionHash other := by
  rw [functionHash_append, functionHash_append, foldl_functionHashStep_inj]

end SourceCoverage
