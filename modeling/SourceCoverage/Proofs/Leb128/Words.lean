import Mathlib.Data.Nat.Bitwise
import SourceCoverage.Proofs.Leb128.Digits
import SourceCoverage.Proofs.Mapping.Guarded
import SourceCoverage.Proofs.Reading

/-!
# LEB128 in 64-Bit Words

The written form of a value, its size and the reader are defined on numbers, by division, by the
logarithm and by addition. Here are the same three computations on 64-bit *words*, with masks and
shifts: a loop that appends digits to a buffer, a formula in the number of leading zeros, and a loop
that sets the bits of a value. A shift to the left loses what it moves out of the word; the loop
that reads stops at a fault if that happens to a set bit, and the main statements say that it does
not.

## Main results

* `Leb128.append_eq`, `Leb128.sizeOfBits_eq`, `Leb128.readWords_eq`: the computations on words give
  what those on numbers give.
* `Leb128.write_shortest`: writing is undone by reading, and nothing shorter is read as the value.
* `Leb128.read?_exact`: the values that are read are the sums of digits that 64 bits can hold.
-/

namespace SourceCoverage.Leb128

/-! ### The computations -/

/-- Appends a value to a buffer, seven bits at a time from the lowest ones on. -/
def append (buffer : Bytes) (value : UInt64) : Bytes :=
  let digit := (value &&& 0x7f).toUInt8
  let rest := value >>> 7
  if rest = 0 then buffer ++ [digit] else append (buffer ++ [digit ||| 0x80]) rest
termination_by value.toNat
decreasing_by
  rename_i hrest
  have hpos : 0 < value.toNat := by
    refine Nat.pos_of_ne_zero fun hzero => hrest ?_
    rw [← UInt64.toNat_inj, UInt64.toNat_shiftRight, hzero]
    rfl
  rw [UInt64.toNat_shiftRight, Nat.shiftRight_eq_div_pow]
  exact Nat.div_lt_self hpos (by decide)

/-- The number of bits of a word without its leading zeros. -/
def significantBits (value : UInt64) : Nat := 64 - value.toBitVec.clz.toNat

/-- The size of a value by the number of its bits, of which there is at least one: a seventh of it,
rounded up. -/
def sizeOfBits (value : UInt64) : Nat := (max (significantBits value) 1 + 6) / 7

/-- The bits of a digit, shifted to their place. It is a fault if this is out of the word, or if a
set bit is lost on the way, so that shifting back does not give the digit. -/
def shifted (digit : UInt64) (shift : UInt32) : Except Stop UInt64 :=
  let bits := digit <<< shift.toUInt64
  if shift < 64 ∧ bits >>> shift.toUInt64 = digit then .ok bits else .error .overflow

/-- Goes on with a value of which `shift` bits, `value`, and `count` bytes are read already. -/
def accumulate (shift : UInt32) (value : UInt64) (count : Nat) :
    Bytes → Except Stop (Option (UInt64 × Nat))
  | [] => .ok none
  | b :: rest =>
    let digit := (b &&& 0x7f).toUInt64
    if 64 ≤ shift ∨ shift = 63 ∧ 1 < digit then .ok none
    else do
      let bits ← shifted digit shift
      if b &&& 0x80 = 0 then return some (value ||| bits, count + 1)
      else accumulate (shift + 7) (value ||| bits) (count + 1) rest

/-- Reads the value at the start of the bytes, with the number of bytes it takes. -/
def readWords (bytes : Bytes) : Except Stop (Option (UInt64 × Nat)) := accumulate 0 0 0 bytes

/-! ### Masks -/

/-- The mask of a digit takes the remainder modulo 128. -/
theorem toNat_digit (value : UInt64) :
    ((value &&& 0x7f).toUInt8).toNat = value.toNat % 128 := by
  have hmask : value.toNat &&& 127 = value.toNat % 128 := Nat.and_two_pow_sub_one_eq_mod _ 7
  have hmod := Nat.mod_lt value.toNat (by decide : 128 > 0)
  simp only [UInt64.toNat_toUInt8, UInt64.toNat_and, UInt64.reduceToNat, hmask]
  omega

/-- The mark of a digit that others follow adds 128. -/
theorem toNat_marked (value : UInt64) :
    ((value &&& 0x7f).toUInt8 ||| 0x80).toNat = value.toNat % 128 + 128 := by
  have hdigit : value.toNat % 128 < 2 ^ 7 := Nat.mod_lt _ (by decide)
  have hor := Nat.two_pow_add_eq_or_of_lt hdigit 1
  rw [UInt8.toNat_or, toNat_digit, Nat.or_comm]
  exact hor.symm.trans (Nat.add_comm ..)

/-- The mask of a digit in a byte takes the remainder modulo 128. -/
theorem toNat_lowBits (b : UInt8) : ((b &&& 0x7f).toUInt64).toNat = b.toNat % 128 := by
  simp only [UInt8.toNat_toUInt64, UInt8.toNat_and, UInt8.reduceToNat]
  exact Nat.and_two_pow_sub_one_eq_mod _ 7

/-- A byte without the mark is below 128. -/
theorem and_mark_eq_zero_iff (b : UInt8) : b &&& 0x80 = 0 ↔ b.toNat < 128 := by
  have hbyte := b.toNat_lt
  have hmask : b.toNat &&& 128 = (b.toNat.testBit 7).toNat * 128 := Nat.and_two_pow b.toNat 7
  rw [Nat.testBit_eq_decide_div_mod_eq] at hmask
  rw [← UInt8.toNat_inj, UInt8.toNat_and]
  simp only [UInt8.reduceToNat, hmask]
  rcases Nat.lt_or_ge b.toNat 128 with hlow | hhigh
  · rw [decide_eq_false (by omega)]
    simp [hlow]
  · rw [decide_eq_true (by omega)]
    simp [hhigh]

/-- A shift by a digit divides by 128. -/
theorem toNat_shiftRight_seven (value : UInt64) : (value >>> 7).toNat = value.toNat / 128 := by
  rw [UInt64.toNat_shiftRight, Nat.shiftRight_eq_div_pow]
  rfl

/-! ### Writing -/

/-- **The loop appends the written form.** Induction on the value, in the two cases of a round. -/
theorem append_eq (buffer : Bytes) (value : UInt64) :
    append buffer value = buffer ++ write value := by
  induction hn : value.toNat using Nat.strongRecOn generalizing buffer value with
  | ind n ih =>
      have hrest : value >>> 7 = 0 ↔ value.toNat < 128 := by
        rw [← UInt64.toNat_inj, toNat_shiftRight_seven, UInt64.toNat_zero]
        omega
      have hdigit : (value &&& 0x7f).toUInt8 = UInt8.ofNat (value.toNat % 128) := by
        rw [← toNat_digit, UInt8.ofNat_toNat]
      have hmarked : (value &&& 0x7f).toUInt8 ||| 0x80 = UInt8.ofNat (value.toNat % 128 + 128) := by
        rw [← toNat_marked, UInt8.ofNat_toNat]
      rw [append, write]
      simp only [hrest]
      by_cases hsmall : value.toNat < 128
      · rw [if_pos hsmall, hdigit, Nat.mod_eq_of_lt hsmall, digits_of_lt hsmall]
      · have hlarge := Nat.le_of_not_lt hsmall
        have hquotient := toNat_shiftRight_seven value
        rw [if_neg hsmall, ih _ (by omega) _ _ rfl, write, hquotient, hmarked,
          digits_of_le hlarge, List.append_assoc, List.singleton_append]

/-- The number of significant bits is one more than the logarithm, except that zero has none. -/
theorem significantBits_eq {value : UInt64} (hvalue : value ≠ 0) :
    significantBits value = value.toNat.log2 + 1 := by
  have hne : value.toBitVec ≠ 0#64 := fun h => hvalue (UInt64.toBitVec_inj.1 h)
  have hclz : value.toBitVec.clz.toNat < 64 := BitVec.lt_def.1 (BitVec.clz_lt_iff_ne_zero.2 hne)
  have hlow := BitVec.two_pow_sub_clz_le_toNat_of_ne_zero (by decide) hne
  have hhigh : value.toNat < 2 ^ (64 - value.toBitVec.clz.toNat) := BitVec.toNat_lt_two_pow_sub_clz
  have hlog : value.toNat.log2 = 63 - value.toBitVec.clz.toNat := by
    have hpos : value.toNat ≠ 0 := fun h => hvalue (UInt64.toNat_inj.1 h)
    refine (Nat.log2_eq_iff hpos).2 ⟨hlow, ?_⟩
    rwa [show 63 - value.toBitVec.clz.toNat + 1 = 64 - value.toBitVec.clz.toNat by omega]
  rw [significantBits, hlog]
  omega

/-- **The size by the leading zeros** is the size by the logarithm. -/
theorem sizeOfBits_eq (value : UInt64) : sizeOfBits value = size value := by
  by_cases hzero : value = 0
  · subst hzero
    decide
  · rw [sizeOfBits, size, significantBits_eq hzero, Nat.max_eq_left (Nat.le_add_left ..)]

/-! ### Reading -/

/-- Shifting back gives a number again if and only if there was room for it. -/
theorem shiftLeft_mod_shiftRight_eq_iff {n shift : Nat} :
    (n <<< shift % 2 ^ 64) >>> shift = n ↔ n <<< shift < 2 ^ 64 := by
  constructor
  · intro hback
    refine Nat.lt_of_not_le fun hlost => ?_
    have hle : n <<< shift ≤ n <<< shift % 2 ^ 64 := by
      rw [Nat.shiftRight_eq_div_pow] at hback
      conv_lhs => rw [Nat.shiftLeft_eq, ← hback]
      exact Nat.div_mul_le_self ..
    have hmod := Nat.mod_lt (n <<< shift) (Nat.two_pow_pos 64)
    omega
  · intro hfits
    rw [Nat.mod_eq_of_lt hfits, Nat.shiftLeft_shiftRight]

/-- **A shift is a fault** if and only if it is out of the word or the number has no room. -/
theorem shifted_eq {digit : UInt64} {shift : UInt32} :
    shifted digit shift = if shift.toNat < 64 ∧ digit.toNat <<< shift.toNat < 2 ^ 64
      then .ok (UInt64.ofNat (digit.toNat <<< shift.toNat)) else .error .overflow := by
  have hbits (hshift : shift.toNat < 64) :
      (digit <<< shift.toUInt64).toNat = digit.toNat <<< shift.toNat % 2 ^ 64 := by
    rw [UInt64.toNat_shiftLeft, UInt32.toNat_toUInt64, Nat.mod_eq_of_lt hshift]
  have hroom : shift < 64 ∧ (digit <<< shift.toUInt64) >>> shift.toUInt64 = digit
      ↔ shift.toNat < 64 ∧ digit.toNat <<< shift.toNat < 2 ^ 64 := by
    rw [UInt32.lt_iff_toNat_lt]
    refine and_congr_right fun (hshift : shift.toNat < 64) => ?_
    rw [← UInt64.toNat_inj, UInt64.toNat_shiftRight, hbits hshift, UInt32.toNat_toUInt64,
      Nat.mod_eq_of_lt hshift, shiftLeft_mod_shiftRight_eq_iff]
  rw [shifted]
  simp only [hroom]
  refine ite_congr rfl (fun h => ?_) fun _ => rfl
  refine congrArg Except.ok (UInt64.toNat_inj.1 ?_)
  rw [hbits h.1, UInt64.toNat_ofNat']

/-- The loop stops where the reader does. -/
theorem stops_iff {shift : UInt32} {b : UInt8} :
    64 ≤ shift ∨ shift = 63 ∧ 1 < (b &&& 0x7f).toUInt64
      ↔ 64 ≤ shift.toNat ∨ shift.toNat = 63 ∧ 1 < b.toNat % 128 := by
  rw [UInt32.le_iff_toNat_le, ← UInt32.toNat_inj, UInt64.lt_iff_toNat_lt, toNat_lowBits]
  rfl

/-- Setting the bits of a digit above those that are read adds it. -/
theorem toNat_or_shiftLeft {value : UInt64} {digit shift : Nat} (hvalue : value.toNat < 2 ^ shift)
    (hfits : digit <<< shift < 2 ^ 64) :
    (value ||| UInt64.ofNat (digit <<< shift)).toNat = value.toNat + digit <<< shift := by
  rw [UInt64.toNat_or, UInt64.toNat_ofNat_of_lt' hfits, or_shiftLeft hvalue]

/-- **The loop reads what the reader reads, and comes to no fault.** Induction on the bytes: the
bits that are read end in front of the digit that comes next. -/
theorem accumulate_eq {shift : UInt32} {value : UInt64} {count : Nat} {bytes : Bytes}
    (hshift : 7 ∣ shift.toNat) (hbound : shift.toNat ≤ 70)
    (hvalue : value.toNat < 2 ^ shift.toNat) : accumulate shift value count bytes =
      .ok ((readFrom shift.toNat value.toNat bytes).map
        fun (value, more) => (UInt64.ofNat value, count + more)) := by
  induction bytes generalizing shift value count with
  | nil => rfl
  | cons b rest ih =>
      have hdigit : b.toNat % 128 < 128 := Nat.mod_lt _ (by decide)
      rw [accumulate, readFrom]
      simp only [stops_iff]
      split
      · rfl
      · next hroom =>
          have hfits := shiftLeft_lt_of_room hshift hdigit hroom
          have hsum := toNat_or_shiftLeft hvalue hfits
          have hnext : (shift + 7).toNat = shift.toNat + 7 := by
            rw [UInt32.toNat_add]
            exact Nat.mod_eq_of_lt (Nat.lt_of_le_of_lt (Nat.add_le_add_right hbound 7) (by decide))
          have hinside : shift.toNat < 64 := Nat.lt_of_not_le fun hle => hroom (.inl hle)
          rw [shifted_eq, toNat_lowBits, if_pos ⟨hinside, hfits⟩]
          simp only [bind, Except.bind, and_mark_eq_zero_iff]
          split
          · simp only [Option.map_some, ← hsum, UInt64.ofNat_toNat]
            rfl
          · have hlarger : (value ||| UInt64.ofNat ((b.toNat % 128) <<< shift.toNat)).toNat
                < 2 ^ (shift + 7).toNat := by
              rw [hsum, hnext]
              exact add_shiftLeft_lt hvalue hdigit
            rw [ih (hnext ▸ Nat.dvd_add hshift ⟨1, rfl⟩) (by omega) hlarger, hnext, hsum,
              Option.map_map]
            refine congrArg (fun f => Except.ok (Option.map f _)) (funext fun r => ?_)
            simp only [Function.comp, Nat.add_assoc, Nat.add_comm 1]

/-- **Reading in words** gives what is read, and comes to no fault. -/
theorem readWords_eq (bytes : Bytes) : readWords bytes = .ok (read? bytes) := by
  rw [readWords, accumulate_eq ⟨0, rfl⟩ (by decide) (by decide), read?]
  simp only [Nat.zero_add]
  rfl

/-! ### Written forms and readable ones -/

variable {value : UInt64} {bytes : Bytes} {length : Nat}

/-- What is read is what the bytes spell from the first digit on. -/
theorem read?_eq_some_iff :
    read? bytes = some (value, length) ↔ Spelled 0 bytes length value.toNat := by
  have hreads (sum : Nat) :
      readFrom 0 0 bytes = some (sum, length) ↔ Spelled 0 bytes length sum := by
    refine (@readFrom_eq_some_iff 0 0 sum length bytes).trans ?_
    simp only [Nat.pow_zero, Nat.mul_one, Nat.zero_add, exists_eq_right']
  rw [read?, Option.map_eq_some_iff]
  constructor
  · rintro ⟨⟨sum, _⟩, hread, heq⟩
    obtain ⟨rfl, rfl⟩ := Prod.mk.inj heq
    have hspelled := (hreads sum).1 hread
    have hfits : sum < 2 ^ 64 := by simpa using hspelled.fits
    rwa [UInt64.toNat_ofNat_of_lt' hfits]
  · intro hspelled
    exact ⟨(value.toNat, length), (hreads _).2 hspelled, Prod.ext UInt64.ofNat_toNat rfl⟩

/-- Nothing shorter than the written form is read as the value. -/
theorem size_le_of_read? (h : read? bytes = some (value, length)) : size value ≤ length := by
  have hspelled := read?_eq_some_iff.1 h
  have hpos := hspelled.pos
  have hlt := digitSum_lt bytes length
  rw [hspelled.sum, ← Nat.sub_add_cancel hpos] at hlt
  rw [← length_write, ← Nat.sub_add_cancel hpos]
  exact length_digits_le hlt

/-- Of what is read as the value, only the written form is as short as it. -/
theorem eq_size_iff_of_read? (h : read? bytes = some (value, length)) :
    length = size value ↔ bytes.take length = write value := by
  have hspelled := read?_eq_some_iff.1 h
  rw [← length_write]
  constructor
  · intro hlength
    exact hspelled.take_eq_digits hlength.symm
  · intro htake
    rw [← htake, List.length_take, Nat.min_eq_left hspelled.within]

/-- **Writing is undone by reading, and it is the shortest form**: the loop appends the written
form, whose length is the size by either formula, the value is read from it whatever follows, and
what the value is read from is as short only if it is the written form. -/
theorem write_shortest (value : UInt64) :
    (∀ buffer, append buffer value = buffer ++ write value) ∧
    ((write value).length = size value ∧ sizeOfBits value = size value) ∧
    (∀ rest, read? (write value ++ rest) = some (value, (write value).length)) ∧
    ∀ bytes length, read? bytes = some (value, length) →
      size value ≤ length ∧ (length = size value ↔ bytes.take length = write value) := by
  refine ⟨fun buffer => append_eq buffer value, ⟨length_write value, sizeOfBits_eq value⟩,
    fun rest => ?_, fun bytes length h => ⟨size_le_of_read? h, eq_size_iff_of_read? h⟩⟩
  have hread := read?_writeNat rest value.toNat_lt
  rwa [writeNat, UInt64.ofNat_toNat] at hread

/-- With a digit of nothing behind it, 5 is read from more than its written form; 624485 is read
from its written form, with another value behind it. -/
theorem write_shortest_padded :
    (read? [0x85, 0x00] = some (5, 2) ∧ size 5 ≤ 2 ∧
      (2 = size 5 ↔ ([0x85, 0x00] : Bytes).take 2 = write 5)) ∧
    (read? [0xe5, 0x8e, 0x26, 0x07] = some (624485, 3) ∧ size 624485 ≤ 3 ∧
      (3 = size 624485 ↔ ([0xe5, 0x8e, 0x26, 0x07] : Bytes).take 3 = write 624485)) := by
  have hpadded : read? [0x85, 0x00] = some (5, 2) := by decide
  have hwritten : read? [0xe5, 0x8e, 0x26, 0x07] = some (624485, 3) := by decide
  exact ⟨⟨hpadded, (write_shortest 5).2.2.2 _ _ hpadded⟩,
    ⟨hwritten, (write_shortest 624485).2.2.2 _ _ hwritten⟩⟩

/-- **The reader accepts exactly the values that 64 bits can hold**: it reads a value from up to ten
bytes, all of them marked but the last, of which the exact sum of the digits is below 2 ^ 64 and
equals the value, and no others. The loop in words gives the same and comes to no fault, so that it
shifts no set bit out of a word. -/
theorem read?_exact (bytes : Bytes) :
    (∀ value length, read? bytes = some (value, length) ↔
      (1 ≤ length ∧ length ≤ 10) ∧ length ≤ bytes.length ∧
      (∀ i < length - 1, 128 ≤ (bytes.getD i 0).toNat) ∧
      (bytes.getD (length - 1) 0).toNat < 128 ∧
      digitSum bytes length < 2 ^ 64 ∧ digitSum bytes length = value.toNat) ∧
    readWords bytes = .ok (read? bytes) := by
  refine ⟨fun value length => ?_, readWords_eq bytes⟩
  rw [read?_eq_some_iff]
  constructor
  · intro h
    have hten : length ≤ 10 := by simpa using h.le_ten
    exact ⟨⟨h.pos, hten⟩, h.within, h.continued, h.last, h.sum ▸ value.toNat_lt, h.sum⟩
  · rintro ⟨⟨hpos, hten⟩, hwithin, hcontinued, hlast, -, hsum⟩
    refine ⟨hpos, by omega, hwithin, hcontinued, hlast, hsum, ?_⟩
    rw [Nat.pow_zero, Nat.mul_one]
    exact value.toNat_lt

-- Of a tenth digit there is room for one bit.
example : read? (List.replicate 9 0xff ++ [0x01]) = some (0xffffffffffffffff, 10)
    ∧ read? (List.replicate 9 0xff ++ [0x02]) = none := by decide

end SourceCoverage.Leb128
