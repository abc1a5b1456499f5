import Mathlib.Tactic.Ring
import SourceCoverage.Cursor

/-!
# What Readers Make of Written Bytes

A reader and the written form of a value belong together when the reader, wherever it finds the
written form and whatever comes behind it, gives the value and stops right behind the form:
`Reader.Reads`. The relation is closed under sequences of readers, so that the round trip of a
format follows from those of its parts.

## Main results

* `Leb128.read?_writeNat`: a 64-bit value is read from its written form.
* `Reader.Reads.bind`, `Reader.Reads.repeatedly`: readers in a row read written forms in a row.
* `Reader.ReadsAll.bind`: the same where nothing follows the written forms.
* `Reader.Reads.uleb`, `Reader.Reads.uleb32`: the two readers of single values.
-/

namespace SourceCoverage

/-! ### Values -/

namespace Leb128

/-- Reading on from `shift` bits takes exactly the digits of a number that fits in the bits that
remain. Induction on the number: each digit but the last costs seven of those bits. -/
theorem readFrom_digits {shift value n : Nat} (rest : Bytes) (hshift : shift < 64)
    (hn : n < 1 <<< (64 - shift)) :
    readFrom shift value (digits n ++ rest) = some (value + n <<< shift, (digits n).length) := by
  induction n using Nat.strongRecOn generalizing shift value with
  | ind n ih =>
      have hlast : shift = 63 → n < 2 := by
        rintro rfl
        simpa using hn
      rcases Nat.lt_or_ge n 128 with hsmall | hlarge
      · have hbyte : (UInt8.ofNat n).toNat = n := by
          rw [UInt8.toNat_ofNat']
          omega
        rw [digits_of_lt hsmall, List.singleton_append]
        simp only [readFrom, hbyte]
        rw [if_neg (by omega), if_pos hsmall, Nat.mod_eq_of_lt hsmall]
        rfl
      · have hbyte : (UInt8.ofNat (n % 128 + 128)).toNat = n % 128 + 128 := by
          rw [UInt8.toNat_ofNat']
          omega
        have hbits : 7 < 64 - shift := by
          refine Nat.lt_of_not_le fun hle => ?_
          have hmono : 2 ^ (64 - shift) ≤ 2 ^ 7 := Nat.pow_le_pow_right (by omega) hle
          simp only [Nat.one_shiftLeft] at hn
          omega
        have hdiv : n / 128 < 1 <<< (64 - (shift + 7)) := by
          simp only [Nat.one_shiftLeft] at hn ⊢
          rw [Nat.div_lt_iff_lt_mul (by omega)]
          calc n < 2 ^ (64 - shift) := hn
            _ = 2 ^ (64 - (shift + 7) + 7) := by congr 1; omega
            _ = 2 ^ (64 - (shift + 7)) * 128 := by rw [Nat.pow_add]
        have hsum : value + (n % 128) <<< shift + (n / 128) <<< (shift + 7)
            = value + n <<< shift := by
          simp only [Nat.shiftLeft_eq, pow_add]
          calc value + n % 128 * 2 ^ shift + n / 128 * (2 ^ shift * 2 ^ 7)
              = value + (n % 128 + 128 * (n / 128)) * 2 ^ shift := by ring
            _ = value + n * 2 ^ shift := by rw [Nat.mod_add_div]
        rw [digits_of_le hlarge, List.cons_append]
        simp only [readFrom, hbyte]
        rw [if_neg (by omega), if_neg (by omega), Nat.add_mod_right, Nat.mod_mod,
          ih (n / 128) (by omega) (by omega) hdiv, hsum]
        rfl

/-- A 64-bit number is read back from its written form, whatever follows it. -/
theorem read?_writeNat {n : Nat} (rest : Bytes) (hn : n < UInt64.size) :
    read? (writeNat n ++ rest) = some (UInt64.ofNat n, (writeNat n).length) := by
  have hvalue : (UInt64.ofNat n).toNat = n := UInt64.toNat_ofNat_of_lt hn
  rw [read?, writeNat, write, hvalue, readFrom_digits rest (by omega) (by simpa using hn)]
  simp

end Leb128

/-! ### Readers -/

namespace Reader

/-- The reader gives `value` from `written`, wherever it stands and whatever follows it, and
stops behind it. -/
def Reads {α : Type} (reader : Reader α) (written : Bytes) (value : α) : Prop :=
  ∀ offset rest, reader ⟨offset, written ++ rest⟩ = .ok (value, ⟨offset + written.length, rest⟩)

namespace Reads

variable {α β : Type}

/-- A reader that takes nothing reads the empty form. -/
theorem pure (value : α) : Reads (pure value) [] value := fun _ _ => rfl

/-- Two readers in a row read two written forms in a row. -/
theorem bind {first : Reader α} {second : α → Reader β} {written written' : Bytes} {a : α}
    {b : β} (hfirst : Reads first written a) (hsecond : Reads (second a) written' b) :
    Reads (first >>= second) (written ++ written') b := by
  intro offset rest
  rw [bind_eq_ok]
  refine ⟨a, ⟨offset + written.length, written' ++ rest⟩, ?_, ?_⟩
  · rw [List.append_assoc]
    exact hfirst offset (written' ++ rest)
  · rw [hsecond (offset + written.length) rest, List.length_append, Nat.add_assoc]

/-- A reader in front of one that takes nothing more. -/
theorem andThen {first : Reader α} {second : α → Reader β} {written : Bytes} {a : α} {b : β}
    (hfirst : Reads first written a) (hsecond : Reads (second a) [] b) :
    Reads (first >>= second) written b := by
  simpa using hfirst.bind hsecond

/-- Reading a number of things in a row reads their written forms in a row. -/
theorem repeatedly {reader : Reader α} {write : β → Bytes} {value : β → α} (xs : List β)
    (h : ∀ x ∈ xs, Reads reader (write x) (value x)) :
    Reads (Cursor.repeatedly reader xs.length) (xs.flatMap write) (xs.map value) := by
  induction xs with
  | nil => exact pure []
  | cons x xs ih =>
      have hx := h x (List.mem_cons_self ..)
      have hxs := ih fun y hy => h y (List.mem_cons_of_mem _ hy)
      exact hx.bind (hxs.andThen (pure (value x :: xs.map value)))

/-- The 64-bit reader reads written numbers. -/
theorem uleb {n : Nat} (hn : n < UInt64.size) :
    Reads Cursor.uleb (Leb128.writeNat n) (UInt64.ofNat n) := by
  intro offset rest
  simp only [Cursor.uleb, Leb128.read?_writeNat rest hn, Cursor.advance, List.drop_left]

/-- The 32-bit reader reads written 32-bit words. -/
theorem uleb32 (w : UInt32) : Reads Cursor.uleb32 (Leb128.writeNat w.toNat) w := by
  have hw := w.toNat_lt
  have hvalue : (UInt64.ofNat w.toNat).toNat = w.toNat :=
    UInt64.toNat_ofNat_of_lt (by simp only [UInt64.size]; omega)
  refine (uleb (by simp only [UInt64.size]; omega)).andThen ?_
  rw [hvalue, if_pos (by simp only [UInt32.size]; omega), UInt32.ofNat_toNat]
  exact pure w

end Reads

/-- The reader gives `value` from `written` where nothing follows it, and takes all of it. -/
def ReadsAll {α : Type} (reader : Reader α) (written : Bytes) (value : α) : Prop :=
  ∀ offset, reader ⟨offset, written⟩ = .ok (value, ⟨offset + written.length, []⟩)

namespace ReadsAll

variable {α β : Type}

/-- A reader in front of one that takes all the rest. -/
theorem bind {first : Reader α} {second : α → Reader β} {written written' : Bytes} {a : α}
    {b : β} (hfirst : Reads first written a) (hsecond : ReadsAll (second a) written' b) :
    ReadsAll (first >>= second) (written ++ written') b := by
  intro offset
  rw [bind_eq_ok]
  refine ⟨a, ⟨offset + written.length, written'⟩, hfirst offset written', ?_⟩
  rw [hsecond, List.length_append, Nat.add_assoc]

/-- A reader that takes everything, in front of one that finds nothing left. -/
theorem andThen {first : Reader α} {second : α → Reader β} {written : Bytes} {a : α} {b : β}
    (hfirst : Reads first written a) (hsecond : ReadsAll (second a) [] b) :
    ReadsAll (first >>= second) written b := by
  simpa using bind hfirst hsecond

/-- A look at the cursor takes nothing. -/
theorem get {second : Cursor → Reader β} {written : Bytes} {b : β}
    (h : ∀ offset, ReadsAll (second ⟨offset, written⟩) written b) :
    ReadsAll (MonadState.get >>= second) written b :=
  fun offset => h offset offset

/-- At the end of the bytes the end is accepted. -/
theorem finish {defect : Defect} {second : Unit → Reader β} {b : β}
    (h : ReadsAll (second ()) [] b) : ReadsAll (Cursor.finish defect >>= second) [] b :=
  fun offset => h offset

/-- A reader that takes nothing, where there is nothing. -/
theorem pure (value : α) : ReadsAll (pure value) [] value := fun _ => rfl

end ReadsAll

end Reader

end SourceCoverage
