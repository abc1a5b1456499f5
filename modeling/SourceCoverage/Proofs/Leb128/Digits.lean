import Mathlib.Algebra.BigOperators.Group.Finset.Basic
import Mathlib.Algebra.BigOperators.Ring.Finset
import Mathlib.Tactic.Ring
import SourceCoverage.Leb128

/-!
# Base-128 Digits

What a byte string says if its bytes are taken for base-128 digits is their *sum*, each digit
weighted by its place. The reader adds them up with shifts, digit by digit, and stops before a digit
that has no room in 64 bits. That it reads exactly the sums that are below 2 ^ 64 is an argument
about its last round only: nine digits always have room, and of a tenth one the lowest bit has.

## Main results

* `Leb128.length_write`: the number of significant bits tells the length of the written form.
* `Leb128.readFrom_eq_some_iff`: what is read, from any round of the reader on.
* `Leb128.Spelled.take_eq_digits`: of the spellings of a value, only one is as short as the written
  form, which is the written form itself.
-/

namespace SourceCoverage.Leb128

/-! ### The bits of a digit -/

/-- The bits of a digit are shifted by its weight. -/
theorem shiftLeft_seven_mul (digit place : Nat) :
    digit <<< (7 * place) = digit * 128 ^ place := by
  rw [Nat.shiftLeft_eq, Nat.pow_mul]

/-- A byte adds seven bits to a value. -/
theorem shiftLeft_lt {digit shift : Nat} (hdigit : digit < 128) :
    digit <<< shift < 2 ^ (shift + 7) := by
  rw [Nat.shiftLeft_eq, Nat.pow_add, Nat.mul_comm]
  exact Nat.mul_lt_mul_of_pos_left hdigit (Nat.two_pow_pos shift)

/-- The bits of a digit stand above those that are read already. -/
theorem or_shiftLeft {value digit shift : Nat} (hvalue : value < 2 ^ shift) :
    value ||| digit <<< shift = value + digit <<< shift := by
  rw [Nat.or_comm, ← Nat.shiftLeft_add_eq_or_of_lt hvalue, Nat.add_comm]

/-- With one more digit, a value has seven more bits. -/
theorem add_shiftLeft_lt {value digit shift : Nat} (hvalue : value < 2 ^ shift)
    (hdigit : digit < 128) : value + digit <<< shift < 2 ^ (shift + 7) := by
  have hwider : 2 ^ shift ≤ 2 ^ (shift + 7) :=
    Nat.pow_le_pow_right (by decide) (Nat.le_add_right ..)
  rw [← or_shiftLeft hvalue]
  exact Nat.or_lt_two_pow (Nat.lt_of_lt_of_le hvalue hwider) (shiftLeft_lt hdigit)

/-- A digit that is not too much for a value of 64 bits stays within them. -/
theorem shiftLeft_lt_of_room {digit shift : Nat} (hshift : 7 ∣ shift) (hdigit : digit < 128)
    (hroom : ¬(64 ≤ shift ∨ shift = 63 ∧ 1 < digit)) : digit <<< shift < 2 ^ 64 := by
  by_cases hlast : shift = 63
  · have hsmall : digit ≤ 1 := by omega
    rw [hlast, Nat.shiftLeft_eq]
    omega
  · have hle : shift + 7 ≤ 64 := by omega
    exact Nat.lt_of_lt_of_le (shiftLeft_lt hdigit) (Nat.pow_le_pow_right (by decide) hle)

/-! ### The length of the written form -/

/-- A number that has another digit below it has seven more bits. -/
theorem log2_eq_log2_div_add {n : Nat} (h : 128 ≤ n) : n.log2 = (n / 128).log2 + 7 := by
  have hne : n / 128 ≠ 0 := by omega
  obtain ⟨hlow, hhigh⟩ := (Nat.log2_eq_iff hne).1 rfl
  refine (Nat.log2_eq_iff (by omega)).2 ⟨?_, ?_⟩
  · rw [Nat.pow_add]
    omega
  · rw [Nat.add_right_comm, Nat.pow_add]
    omega

/-- Seven significant bits go into each digit. -/
theorem length_digits (n : Nat) : (digits n).length = (n.log2 + 7) / 7 := by
  induction n using Nat.strongRecOn with
  | ind n ih =>
      rcases Nat.lt_or_ge n 128 with hsmall | hlarge
      · have hlog : n.log2 < 7 := by
          rcases Nat.eq_zero_or_pos n with rfl | hpos
          · decide
          · exact (Nat.log2_lt (by omega)).2 hsmall
        rw [digits_of_lt hsmall, List.length_singleton]
        omega
      · rw [digits_of_le hlarge, List.length_cons, ih (n / 128) (by omega),
          log2_eq_log2_div_add hlarge]
        omega

/-- The size of a value is the length of its written form. -/
theorem length_write (value : UInt64) : (write value).length = size value :=
  length_digits value.toNat

/-! ### Sums of digits -/

/-- The sum of the first digits of some bytes, each weighted by its place. -/
def digitSum (bytes : Bytes) (length : Nat) : Nat :=
  ∑ i ∈ Finset.range length, (bytes.getD i 0).toNat % 128 * 128 ^ i

/-- Behind the first digit, all digits have 128 times their weight. -/
theorem digitSum_cons (b : UInt8) (rest : Bytes) (length : Nat) :
    digitSum (b :: rest) (length + 1) = b.toNat % 128 + 128 * digitSum rest length := by
  rw [digitSum, Finset.sum_range_succ', digitSum, Finset.mul_sum, Nat.add_comm]
  refine congrArg₂ _ (by simp) (Finset.sum_congr rfl fun i _ => ?_)
  rw [List.getD_cons_succ, Nat.pow_succ]
  ac_rfl

/-- So many digits say less than the power of 128. -/
theorem digitSum_lt (bytes : Bytes) (length : Nat) : digitSum bytes length < 128 ^ length := by
  induction length generalizing bytes with
  | zero => simp [digitSum]
  | succ length ih =>
      rw [digitSum, Finset.sum_range_succ, ← digitSum, Nat.pow_succ, Nat.mul_comm (128 ^ length)]
      have hdigit : (bytes.getD length 0).toNat % 128 ≤ 127 :=
        Nat.le_of_lt_succ (Nat.mod_lt _ (by decide))
      have hless := ih bytes
      have hscaled := Nat.mul_le_mul_right (128 ^ length) hdigit
      omega

/-- The first bytes **spell** a value behind some digits that are read already: all but the last of
them are marked as digits that others follow, and the value, at the place where it stands, is one of
64 bits with at most ten digits. -/
structure Spelled (start : Nat) (bytes : Bytes) (length value : Nat) : Prop where
  pos : 1 ≤ length
  le_ten : start + length ≤ 10
  within : length ≤ bytes.length
  continued : ∀ i < length - 1, 128 ≤ (bytes.getD i 0).toNat
  last : (bytes.getD (length - 1) 0).toNat < 128
  sum : digitSum bytes length = value
  fits : value * 128 ^ start < 2 ^ 64

/-- A digit in front of others fits where these fit: what 64 bits leave for those behind it is a
multiple of what they leave for it. -/
theorem digit_fits_iff {start digit value : Nat} (hstart : start < 9) (hdigit : digit < 128) :
    (digit + 128 * value) * 128 ^ start < 2 ^ 64 ↔ value * 128 ^ (start + 1) < 2 ^ 64 := by
  have hbits : 2 ^ 64 = 2 ^ (57 - 7 * start) * 128 ^ (start + 1) := by
    rw [show 128 = 2 ^ 7 from rfl, ← Nat.pow_mul, ← Nat.pow_add]
    congr 1
    omega
  have hpos : 0 < 128 ^ start := Nat.pow_pos (by decide)
  rw [hbits, Nat.mul_lt_mul_right (Nat.pow_pos (by decide)), Nat.pow_succ,
    Nat.mul_comm (128 ^ start), ← Nat.mul_assoc, Nat.mul_lt_mul_right hpos]
  omega

namespace Spelled

variable {start length value : Nat} {b : UInt8} {rest : Bytes}

/-- Nothing is spelled without digits. -/
theorem not_nil : ¬Spelled start [] length value := by
  intro h
  have hwithin := h.within
  have hpos := h.pos
  rw [List.length_nil] at hwithin
  omega

/-- Where the first digit is not marked, it is the only one. -/
theorem cons_last_iff (hb : b.toNat < 128) : Spelled start (b :: rest) length value ↔
    length = 1 ∧ value = b.toNat ∧ start < 10 ∧ b.toNat * 128 ^ start < 2 ^ 64 := by
  have hsum : digitSum (b :: rest) 1 = b.toNat := by
    rw [digitSum_cons, Nat.mod_eq_of_lt hb]
    simp [digitSum]
  constructor
  · intro h
    have hlength : length = 1 := by
      refine Nat.le_antisymm (Nat.le_of_not_lt fun hlong => ?_) h.pos
      have hmarked := h.continued 0 (by omega)
      rw [List.getD_cons_zero] at hmarked
      omega
    obtain rfl := hlength
    obtain rfl : b.toNat = value := hsum ▸ h.sum
    exact ⟨rfl, rfl, h.le_ten, h.fits⟩
  · rintro ⟨rfl, rfl, hstart, hfits⟩
    exact ⟨Nat.le_refl 1, hstart, by simp, by simp, hb, hsum, hfits⟩

/-- Where the first digit is marked, the others spell the rest of the value, seven bits on. -/
theorem cons_marked_iff (hb : 128 ≤ b.toNat) : Spelled start (b :: rest) length value ↔
    ∃ length' value', length = length' + 1 ∧ value = b.toNat % 128 + 128 * value' ∧
      Spelled (start + 1) rest length' value' := by
  have hdigit : b.toNat % 128 < 128 := Nat.mod_lt _ (by decide)
  constructor
  · intro h
    obtain ⟨length', rfl⟩ : ∃ length', length = length' + 1 := ⟨length - 1, by have := h.pos; omega⟩
    have hpos : 1 ≤ length' := by
      refine Nat.pos_of_ne_zero fun hzero => ?_
      have hlast := h.last
      simp only [hzero, Nat.zero_add, Nat.sub_self, List.getD_cons_zero] at hlast
      omega
    have hstart : start < 9 := by
      have hten := h.le_ten
      omega
    have hvalue : value = b.toNat % 128 + 128 * digitSum rest length' := by
      rw [← h.sum, digitSum_cons]
    refine ⟨length', digitSum rest length', rfl, hvalue, ?_⟩
    refine ⟨hpos, by have := h.le_ten; omega, by simpa using h.within, fun i hi => ?_, ?_, rfl, ?_⟩
    · simpa using h.continued (i + 1) (by omega)
    · have hlast := h.last
      rwa [Nat.add_sub_cancel, ← Nat.sub_add_cancel hpos, List.getD_cons_succ] at hlast
    · exact (digit_fits_iff hstart hdigit).1 (hvalue ▸ h.fits)
  · rintro ⟨length', value', rfl, rfl, h⟩
    have hpos := h.pos
    have hten := h.le_ten
    refine ⟨by omega, by omega, by simpa using h.within, fun i hi => ?_, ?_, ?_, ?_⟩
    · cases i with
      | zero => exact hb
      | succ i => simpa using h.continued i (by omega)
    · rw [Nat.add_sub_cancel, ← Nat.sub_add_cancel hpos, List.getD_cons_succ]
      exact h.last
    · rw [digitSum_cons, h.sum]
    · exact (digit_fits_iff (by omega) hdigit).2 h.fits

/-- There is room for the first digit of what is spelled. Where a tenth one is the first, it is the
last as well, so that it is the value that has to fit. -/
theorem room (h : Spelled start (b :: rest) length value) :
    ¬(64 ≤ 7 * start ∨ 7 * start = 63 ∧ 1 < b.toNat % 128) := by
  have hten := h.le_ten
  have hpos := h.pos
  rintro (hstart | ⟨hstart, hdigit⟩)
  · omega
  · obtain rfl : start = 9 := by omega
    obtain rfl : length = 1 := by omega
    have hlast : b.toNat < 128 := h.last
    obtain ⟨-, -, -, hfits⟩ := (cons_last_iff hlast).1 h
    omega

/-- A value that is spelled with as many digits as its written form has is spelled so. -/
theorem take_eq_digits {bytes : Bytes} (h : Spelled start bytes length value)
    (hlength : (digits value).length = length) : bytes.take length = digits value := by
  induction bytes generalizing start length value with
  | nil => exact absurd h not_nil
  | cons b rest ih =>
      rcases Nat.lt_or_ge b.toNat 128 with hb | hb
      · obtain ⟨rfl, rfl, -, -⟩ := (cons_last_iff hb).1 h
        rw [digits_of_lt hb, UInt8.ofNat_toNat]
        rfl
      · obtain ⟨length', value', rfl, rfl, hrest⟩ := (cons_marked_iff hb).1 h
        have hpos := hrest.pos
        have hlarge : 128 ≤ b.toNat % 128 + 128 * value' := by
          refine Nat.le_of_not_lt fun hsmall => ?_
          rw [digits_of_lt hsmall, List.length_singleton] at hlength
          omega
        have hmod : (b.toNat % 128 + 128 * value') % 128 + 128 = b.toNat := by
          have hbyte := b.toNat_lt
          omega
        have hdiv : (b.toNat % 128 + 128 * value') / 128 = value' := by omega
        rw [digits_of_le hlarge, hmod, hdiv, List.length_cons] at hlength
        rw [digits_of_le hlarge, hmod, hdiv, UInt8.ofNat_toNat, List.take_succ_cons,
          ih hrest (Nat.succ.inj hlength)]

end Spelled

/-- **What is read** from any round of the reader on is what the bytes spell there, above the bits
that are read already. Induction on the bytes, in the cases of a round: it stops, it reads the last
digit, or it leaves the rest of the value to the others. -/
theorem readFrom_eq_some_iff {start value value' length : Nat} {bytes : Bytes} :
    readFrom (7 * start) value bytes = some (value', length)
      ↔ ∃ sum, Spelled start bytes length sum ∧ value' = value + sum * 128 ^ start := by
  induction bytes generalizing start value value' length with
  | nil =>
      simp only [readFrom, reduceCtorEq, false_iff, not_exists, not_and]
      exact fun sum h => absurd h Spelled.not_nil
  | cons b rest ih =>
      have hdigit : b.toNat % 128 < 128 := Nat.mod_lt _ (by decide)
      simp only [readFrom]
      by_cases hstop : 64 ≤ 7 * start ∨ 7 * start = 63 ∧ 1 < b.toNat % 128
      · rw [if_pos hstop]
        simp only [reduceCtorEq, false_iff, not_exists, not_and]
        exact fun sum h => absurd hstop h.room
      · rw [if_neg hstop]
        by_cases hlast : b.toNat < 128
        · have hfits := shiftLeft_lt_of_room (Nat.dvd_mul_right 7 start) hdigit hstop
          rw [shiftLeft_seven_mul, Nat.mod_eq_of_lt hlast] at hfits
          rw [if_pos hlast, shiftLeft_seven_mul, Nat.mod_eq_of_lt hlast]
          simp only [Spelled.cons_last_iff hlast, Option.some.injEq, Prod.mk.injEq]
          constructor
          · rintro ⟨rfl, rfl⟩
            exact ⟨b.toNat, ⟨rfl, rfl, by omega, hfits⟩, rfl⟩
          · rintro ⟨_, ⟨rfl, rfl, -, -⟩, rfl⟩
            exact ⟨rfl, rfl⟩
        · rw [if_neg hlast, show 7 * start + 7 = 7 * (start + 1) from rfl]
          simp only [Spelled.cons_marked_iff (Nat.le_of_not_lt hlast), Option.map_eq_some_iff,
            shiftLeft_seven_mul]
          have hsum (sum : Nat) : value + b.toNat % 128 * 128 ^ start + sum * 128 ^ (start + 1)
              = value + (b.toNat % 128 + 128 * sum) * 128 ^ start := by
            ring
          constructor
          · rintro ⟨⟨_, length'⟩, hread, heq⟩
            obtain ⟨sum, h, rfl⟩ := ih.1 hread
            obtain ⟨rfl, rfl⟩ := Prod.mk.inj heq
            exact ⟨_, ⟨length', sum, rfl, rfl, h⟩, hsum sum⟩
          · rintro ⟨_, ⟨length', sum, rfl, rfl, h⟩, rfl⟩
            exact ⟨(_, length'), ih.2 ⟨sum, h, rfl⟩, Prod.ext (hsum sum) rfl⟩

end SourceCoverage.Leb128
