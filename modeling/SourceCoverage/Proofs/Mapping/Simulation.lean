import SourceCoverage.Proofs.Consumption
import SourceCoverage.Proofs.Leb128.Digits
import SourceCoverage.Proofs.Mapping.Guarded
import SourceCoverage.Session

/-!
# Machines That Do What Readers Do

A machine *simulates* a reader if, wherever in the bytes it starts, it ends as the reader does: with
the same answer at the same place, or with the bytes refused for the same reason. In particular it
does not end at a fault. The relation is closed under sequences, so that a machine need be compared
with its reader part by part only.

With the ends of the two the relation compares what the machine has done with what it was granted.
Each byte grants two units of work: one for the look at it, and one that is left, since nothing is
read from no bytes. What is left pays for the round of a loop that reads a value, or for an
allocation that was granted apart.

## Main results

* `Simulates.bind`: simulations in a row.
* `Simulates.times`: a loop whose rounds pay for themselves.
* `Machine.scan_spec`: a value is read without overflow.
* `Simulates.uleb`: a value pays for itself and for one more unit of work.
-/

namespace SourceCoverage

/-! ### Machines and readers -/

/-- The cursor at which a machine stands. -/
def Progress.cursor (bytes : Bytes) (p : Progress) : Cursor := ⟨p.position, bytes.drop p.position⟩

/-- In front of the cursor and behind it stand all the bytes. -/
theorem Progress.offset_add_length {bytes : Bytes} {p : Progress} (h : p.position ≤ bytes.length) :
    (p.cursor bytes).offset + (p.cursor bytes).rest.length = bytes.length := by
  rw [cursor, List.length_drop]
  exact Nat.add_sub_of_le h

/-- The work that is done, and two units of it for each byte that remains. -/
def Progress.potential (bytes : Bytes) (p : Progress) : Nat :=
  p.work + 2 * (bytes.length - p.position)

/-- A machine **simulates** a reader of the same bytes, from a given table: it ends as the reader
does, with an answer and a table that go with that of the reader, or refuses the bytes for the same
reason. It does not come to a fault. With `before` units of work granted, what it does is paid for
by the bytes that it takes, and `after` units are left. -/
structure Simulates {α β : Type} (bytes : Bytes) (before : Nat) (table : Array Expression)
    (reader : Reader α) (machine : Machine β) (goes : α → β → Array Expression → Prop)
    (after : Nat) : Prop where
  ok : ∀ {p : Progress} {a : α} {next : Cursor}, p.table = table → p.position ≤ bytes.length →
    reader (p.cursor bytes) = .ok (a, next) → ∃ b p', machine p = .ok b p' ∧
      goes a b p'.table ∧ p'.cursor bytes = next ∧ p'.position ≤ bytes.length ∧
      p'.potential bytes + after ≤ p.potential bytes + before
  error : ∀ {p : Progress} {e : MappingError}, p.table = table → p.position ≤ bytes.length →
    reader (p.cursor bytes) = .error e → ∃ p', machine p = .error (.refused e) p' ∧
      p'.work ≤ p.potential bytes + before

namespace Simulates

variable {α β α' β' : Type} {bytes : Bytes} {n k l j : Nat} {table : Array Expression}
  {reader : Reader α} {machine : Machine β} {next : α → Reader α'} {next' : β → Machine β'}
  {goes : α → β → Array Expression → Prop} {goes' : α' → β' → Array Expression → Prop}

/-- Answers that go together. -/
theorem pure {a : α} {b : β} (h : goes a b table) (hk : k ≤ n) :
    Simulates bytes n table (Pure.pure a) (Pure.pure b) goes k where
  ok := by
    intro p a' cursor hp hposition hread
    obtain ⟨rfl, rfl⟩ := Reader.pure_eq_ok.1 hread
    exact ⟨b, p, rfl, hp ▸ h, rfl, hposition, by omega⟩
  error := nofun

/-- Refusals for the same reason. -/
theorem refuse {defect : Defect} :
    Simulates bytes n table (Cursor.fail defect) (Machine.refuse defect) goes k where
  ok := nofun
  error := by
    rintro p e - - hread
    obtain rfl := Except.error.inj hread
    refine ⟨p, rfl, ?_⟩
    rw [Progress.potential]
    omega

/-- **Simulations in a row**: what the first one leaves is granted to the second one. -/
theorem bind (h : Simulates bytes n table reader machine goes k)
    (hnext : ∀ a b table', goes a b table' →
      Simulates bytes k table' (next a) (next' b) goes' l) :
    Simulates bytes n table (reader >>= next) (machine >>= next') goes' l where
  ok := by
    intro p a' cursor hp hposition hread
    obtain ⟨a, between, hfirst, hsecond⟩ := Reader.bind_eq_ok.1 hread
    obtain ⟨b, p₁, hrun, hgoes, rfl, hposition₁, hpotential₁⟩ := h.ok hp hposition hfirst
    obtain ⟨b', p₂, hrun', hgoes', hcursor, hposition₂, hpotential₂⟩ :=
      (hnext a b _ hgoes).ok rfl hposition₁ hsecond
    exact ⟨b', p₂, (bind_of_ok hrun next').trans hrun', hgoes', hcursor, hposition₂, by omega⟩
  error := by
    intro p e hp hposition hread
    change Except.bind (reader (p.cursor bytes)) (fun r => next r.1 r.2) = .error e at hread
    cases hfirst : reader (p.cursor bytes) with
    | error e' =>
        obtain ⟨p', hrun, hwork⟩ := h.error hp hposition hfirst
        rw [hfirst] at hread
        obtain rfl := Except.error.inj hread
        exact ⟨p', bind_of_error hrun next', hwork⟩
    | ok r =>
        obtain ⟨a, between⟩ := r
        obtain ⟨b, p₁, hrun, hgoes, rfl, hposition₁, hpotential₁⟩ := h.ok hp hposition hfirst
        rw [hfirst] at hread
        obtain ⟨p', hrun', hwork⟩ := (hnext a b _ hgoes).error rfl hposition₁ hread
        exact ⟨p', (bind_of_ok hrun next').trans hrun', by omega⟩

/-- Less may be left. -/
theorem leave (h : Simulates bytes n table reader machine goes k) (hk : l ≤ k) :
    Simulates bytes n table reader machine goes l where
  ok := by
    intro p a cursor hp hposition hread
    obtain ⟨b, p', hrun, hgoes, hcursor, hposition', hpotential⟩ := h.ok hp hposition hread
    exact ⟨b, p', hrun, hgoes, hcursor, hposition', by omega⟩
  error := h.error

/-- What is granted besides is left. -/
theorem frame (h : Simulates bytes n table reader machine goes k) (j : Nat) :
    Simulates bytes (n + j) table reader machine goes (k + j) where
  ok := by
    intro p a cursor hp hposition hread
    obtain ⟨b, p', hrun, hgoes, hcursor, hposition', hpotential⟩ := h.ok hp hposition hread
    exact ⟨b, p', hrun, hgoes, hcursor, hposition', by omega⟩
  error := by
    intro p e hp hposition hread
    obtain ⟨p', hrun, hwork⟩ := h.error hp hposition hread
    exact ⟨p', hrun, by omega⟩

/-- Both look at the same condition. -/
theorem ite {condition : Prop} [Decidable condition] {reader' : Reader α} {machine' : Machine β}
    (h : condition → Simulates bytes n table reader machine goes k)
    (h' : ¬condition → Simulates bytes n table reader' machine' goes k) :
    Simulates bytes n table (if condition then reader else reader')
      (if condition then machine else machine') goes k := by
  split
  · next hcondition => exact h hcondition
  · next hcondition => exact h' hcondition

/-- What a reader does elsewhere than at the places of a machine does not matter. -/
theorem congr_reader {reader' : Reader α} (heq : ∀ p : Progress, p.position ≤ bytes.length →
      reader' (p.cursor bytes) = reader (p.cursor bytes))
    (h : Simulates bytes n table reader machine goes k) :
    Simulates bytes n table reader' machine goes k where
  ok := fun hp hposition hread => h.ok hp hposition ((heq _ hposition).symm.trans hread)
  error := fun hp hposition hread => h.error hp hposition ((heq _ hposition).symm.trans hread)

/-- A refusal in front of something else. -/
theorem refuse_bind {defect : Defect} :
    Simulates bytes n table (Cursor.fail defect >>= next) (Machine.refuse defect) goes' k :=
  show Simulates bytes n table (Cursor.fail defect) (Machine.refuse defect) goes' k from refuse

/-! ### What the machine does besides -/

/-- **A step of the machine alone**, which leaves the bytes where they are and changes the table.
The work that it does has to be granted. -/
theorem step {γ : Type} {operation : Machine γ} (answer : γ) {next : γ → Machine β}
    {table' : Array Expression}
    (h : Simulates bytes n table' reader (next answer) goes k)
    (hstep : ∀ p : Progress, p.table = table →
      operation p = .ok answer ⟨p.position, table', p.work + j⟩) (hj : n + j ≤ l) :
    Simulates bytes l table reader (operation >>= next) goes k where
  ok := by
    intro p a cursor hp hposition hread
    obtain ⟨b, p', hrun, hgoes, hcursor, hposition', hpotential⟩ :=
      h.ok (p := ⟨p.position, table', p.work + j⟩) rfl hposition hread
    simp only [Progress.potential] at hpotential ⊢
    exact ⟨b, p', (bind_of_ok (hstep p hp) next).trans hrun, hgoes, hcursor, hposition', by omega⟩
  error := by
    intro p e hp hposition hread
    obtain ⟨p', hrun, hwork⟩ :=
      h.error (p := ⟨p.position, table', p.work + j⟩) rfl hposition hread
    simp only [Progress.potential] at hwork ⊢
    exact ⟨p', (bind_of_ok (hstep p hp) next).trans hrun, by omega⟩

/-- Work. -/
theorem spend (h : Simulates bytes n table reader machine goes k) (hj : n + j ≤ l) :
    Simulates bytes l table reader (Machine.spend j >>= fun _ => machine) goes k :=
  h.step () (by rintro p rfl; rfl) hj

/-- A look at the table. -/
theorem getTable {next : Array Expression → Machine β}
    (h : Simulates bytes n table reader (next table) goes k) :
    Simulates bytes n table reader (Machine.getTable >>= next) goes k :=
  h.step table (j := 0) (by rintro p rfl; rfl) (Nat.le_refl n)

/-- A change of an expression that is there. -/
theorem update {index : Nat} {f : Expression → Expression} (hindex : index < table.size)
    (h : Simulates bytes n (table.modify index f) reader machine goes k) :
    Simulates bytes n table reader (Machine.update index f >>= fun _ => machine) goes k :=
  h.step () (j := 0) (by rintro p rfl; exact if_pos hindex) (Nat.le_refl n)

/-- An allocation of expressions, each of which is work. -/
theorem allocate {size : Nat}
    (h : Simulates bytes n (Array.replicate size ⟨.subtract, .zero, .zero⟩) reader machine goes k)
    (hsize : n + size ≤ l) :
    Simulates bytes l table reader (Machine.allocate size >>= fun _ => machine) goes k :=
  h.step () (fun _ _ => rfl) hsize

/-- **A number of rounds.** Each is paid for by the bytes that it takes. -/
theorem times {reader : Reader α} {machine : Machine α}
    (h : Simulates bytes 0 table reader machine (fun a b t => a = b ∧ t = table) 1) (count : Nat) :
    Simulates bytes 1 table (Cursor.repeatedly reader count) (Machine.times machine count)
      (fun as bs t => as = bs ∧ t = table) 1 := by
  induction count with
  | zero => exact .pure ⟨rfl, rfl⟩ (Nat.le_refl _)
  | succ count ih =>
      refine (h.bind ?_).spend (Nat.le_refl 1)
      rintro first _ _ ⟨rfl, rfl⟩
      refine ih.bind ?_
      rintro others _ _ ⟨rfl, rfl⟩
      exact .pure ⟨rfl, rfl⟩ (Nat.le_refl _)

end Simulates

/-! ### Values -/

namespace Machine

/-- A number that fits its word goes on as it is. -/
theorem word_bind {α : Type} {bits value : Nat} {next : Nat → Machine α}
    (hfits : value < 2 ^ bits) : (word bits value >>= next) = next value := by
  rw [word, Nat.one_shiftLeft, if_pos hfits]
  rfl

/-- **A value is read without overflow**, and no more bytes are looked at than there are. Induction
on the bytes: the bits that are read end in front of the digit that comes next. -/
theorem scan_spec {shift value length : Nat} {bytes : Bytes} (hshift : 7 ∣ shift)
    (hbound : shift ≤ 70) (hvalue : value < 2 ^ shift) (hlength : length + bytes.length < 2 ^ 64)
    (p : Progress) : ∃ looked ≤ bytes.length,
      scan shift value length bytes p = .ok ((Leb128.readFrom shift value bytes).map
        fun (value, more) => (value, length + more)) { p with work := p.work + looked } ∧
      ∀ value' more, Leb128.readFrom shift value bytes = some (value', more) → looked = more := by
  induction bytes generalizing shift value length p with
  | nil => exact ⟨0, Nat.le_refl _, rfl, fun _ _ h => by cases h⟩
  | cons b rest ih =>
      let digit := b.toNat % 128
      have hdigit : digit < 128 := Nat.mod_lt _ (by decide)
      have hspend (next : Unit → Machine (Option (Nat × Nat))) :
          (spend 1 >>= next) p = next () { p with work := p.work + 1 } := rfl
      rw [List.length_cons] at hlength ⊢
      rw [scan, Leb128.readFrom, hspend]
      simp only
      by_cases hstop : 64 ≤ shift ∨ shift = 63 ∧ 1 < digit
      · rw [if_pos hstop, if_pos hstop]
        exact ⟨1, by omega, rfl, fun _ _ h => by cases h⟩
      · have hfits := Leb128.shiftLeft_lt_of_room hshift hdigit hstop
        rw [if_neg hstop, if_neg hstop, word_bind hfits, word_bind (by omega),
          Leb128.or_shiftLeft hvalue]
        by_cases hlast : b.toNat < 128
        · rw [if_pos hlast, if_pos hlast]
          refine ⟨1, by omega, rfl, fun value' more h => ?_⟩
          exact (Prod.mk.inj (Option.some.inj h)).2
        · rw [if_neg hlast, if_neg hlast, word_bind (by omega)]
          have hlength' : length + 1 + rest.length < 2 ^ 64 := by omega
          obtain ⟨looked, hlooked, hscan, hmore⟩ := ih (Nat.dvd_add hshift ⟨1, rfl⟩) (by omega)
            (Leb128.add_shiftLeft_lt hvalue hdigit) hlength' { p with work := p.work + 1 }
          refine ⟨looked + 1, by omega, ?_, ?_⟩
          · rw [hscan, Option.map_map, Nat.add_right_comm, Nat.add_assoc]
            congr 1
            refine congrArg (Option.map · _) (funext fun r => ?_)
            simp only [Function.comp]
            rw [Nat.add_assoc, Nat.add_comm 1]
          · intro value' more' h
            obtain ⟨⟨_, _⟩, hread, heq⟩ := Option.map_eq_some_iff.1 h
            obtain ⟨-, rfl⟩ := Prod.mk.inj heq
            rw [hmore _ _ hread]

/-- **Reading a value** moves behind it, after a look at each of its bytes; where there is none, no
more bytes are looked at than there are. -/
theorem uleb_spec {bytes : Bytes} (hlength : bytes.length < 2 ^ 64) {p : Progress}
    (hposition : p.position ≤ bytes.length) :
    (∀ value more, Leb128.read? (bytes.drop p.position) = some (value, more) →
      0 < more ∧ p.position + more ≤ bytes.length ∧ uleb bytes p = .ok value
        { p with position := p.position + more, work := p.work + more }) ∧
    (Leb128.read? (bytes.drop p.position) = none → ∃ looked ≤ bytes.length - p.position,
      uleb bytes p = .error (.refused (.malformed p.position .truncatedValue))
        { p with work := p.work + looked }) := by
  have hrest : remaining bytes p = .ok (bytes.drop p.position) p := if_pos hposition
  have hlength' : 0 + (bytes.drop p.position).length < 2 ^ 64 := by
    rw [List.length_drop]
    omega
  obtain ⟨looked, hlooked, hscan, hmore⟩ :=
    scan_spec (Nat.dvd_zero 7) (Nat.zero_le 70) (by decide : 0 < 2 ^ 0) hlength' p
  rw [List.length_drop] at hlooked
  rw [uleb, bind_of_ok hrest, bind_of_ok hscan, Leb128.read?]
  cases hread : Leb128.readFrom 0 0 (bytes.drop p.position) with
  | none =>
      exact ⟨fun _ _ h => (by cases h), fun _ => ⟨looked, hlooked, rfl⟩⟩
  | some r =>
      obtain ⟨value, more⟩ := r
      obtain ⟨hpositive, hle⟩ := Leb128.length_pos_of_readFrom hread
      obtain rfl := hmore value more hread
      have hadvance : advance looked { p with work := p.work + looked }
          = .ok () { p with position := p.position + looked, work := p.work + looked } := by
        change (word 64 (p.position + looked) >>= fun position =>
          modify ({ · with position })) { p with work := p.work + looked } = _
        rw [word_bind (by omega)]
        rfl
      refine ⟨fun value' more' h => ?_, fun h => by cases h⟩
      obtain ⟨rfl, rfl⟩ := Prod.mk.inj (Option.some.inj h)
      refine ⟨hpositive, by omega, ?_⟩
      simp only [Option.map_some, Nat.zero_add]
      exact bind_of_ok hadvance _

end Machine

namespace Simulates

variable {bytes : Bytes} {n count : Nat} {table : Array Expression}

/-- **A value pays for itself and for one more unit of work.** -/
theorem uleb (hlength : bytes.length < 2 ^ 64) : Simulates bytes n table Cursor.uleb
    (Machine.uleb bytes) (fun a b t => a = b ∧ t = table) (n + 1) where
  ok := by
    intro p a next hp hposition hread
    rw [Cursor.uleb] at hread
    split at hread
    · next value more hvalue =>
        obtain ⟨rfl, rfl⟩ := Prod.mk.inj (Except.ok.inj hread)
        obtain ⟨hpositive, hle, hrun⟩ := (Machine.uleb_spec hlength hposition).1 value more hvalue
        refine ⟨value, _, hrun, ⟨rfl, hp⟩, ?_, hle, ?_⟩
        · simp only [Progress.cursor, Cursor.advance, List.drop_drop]
        · simp only [Progress.potential]
          omega
    · cases hread
  error := by
    intro p e hp hposition hread
    rw [Cursor.uleb] at hread
    split at hread
    · cases hread
    · next hvalue =>
        obtain rfl := Except.error.inj hread
        obtain ⟨looked, hlooked, hrun⟩ := (Machine.uleb_spec hlength hposition).2 hvalue
        refine ⟨_, hrun, ?_⟩
        simp only [Progress.potential]
        omega

/-- So does one that has to fit in 32 bits. -/
theorem uleb32 (hlength : bytes.length < 2 ^ 64) : Simulates bytes n table Cursor.uleb32
    (Machine.uleb32 bytes) (fun a b t => a = b ∧ t = table) (n + 1) := by
  refine (uleb hlength).bind ?_
  rintro value _ _ ⟨rfl, rfl⟩
  exact .ite (fun _ => .pure ⟨rfl, rfl⟩ (Nat.le_refl _)) fun _ => .refuse

/-! ### The bytes as a whole -/

variable {α β : Type} {k : Nat} {reader : Reader α} {machine : Machine β}
  {goes : α → β → Array Expression → Prop}

/-- A count that must not be larger than the number of bytes. -/
theorem unlessShort {count : Nat} {short : Defect}
    (h : count ≤ bytes.length → Simulates bytes n table reader machine goes k) :
    Simulates bytes n table (Reader.unlessShort count short reader)
      (if bytes.length < count then Machine.refuse short else machine) goes k := by
  refine congr_reader (fun p hposition => ?_)
    (ite (fun _ => refuse) fun hcount => h (Nat.le_of_not_lt hcount))
  rw [Reader.unlessShort_apply, Progress.offset_add_length hposition]
  split <;> rfl

/-- The end of the bytes. -/
theorem finish {defect : Defect} : Simulates bytes n table (Cursor.finish defect)
    (Machine.finish bytes defect) (fun _ _ t => t = table) n := by
  have hend (p : Progress) (hposition : p.position ≤ bytes.length) :
      (p.cursor bytes).rest = [] ↔ p.position = bytes.length := by
    rw [Progress.cursor, List.drop_eq_nil_iff]
    omega
  have hrefuse : Simulates bytes n table (Cursor.fail defect : Reader Unit)
    (Machine.refuse defect : Machine Unit) (fun _ _ t => t = table) n := .refuse
  constructor
  · intro p _ next hp hposition hread
    rw [Cursor.finish] at hread
    split at hread
    · next hnil =>
        obtain ⟨-, rfl⟩ := Prod.mk.inj (Except.ok.inj hread)
        exact ⟨(), p, if_pos ((hend p hposition).1 hnil), hp, rfl, hposition, Nat.le_refl _⟩
    · cases hread
  · intro p e hp hposition hread
    rw [Cursor.finish] at hread
    split at hread
    · cases hread
    · next hmore =>
        obtain ⟨p', hrun, hwork⟩ := hrefuse.error hp hposition hread
        exact ⟨p', (if_neg fun h => hmore ((hend p hposition).2 h)).trans hrun, hwork⟩

/-- What a reader takes is part of the bytes. -/
theorem and_takes (h : Simulates bytes n table reader machine goes k) {P : α → Nat → Prop}
    (htakes : Reader.Takes reader P) : Simulates bytes n table reader machine
      (fun a b t => goes a b t ∧ ∃ taken ≤ bytes.length, P a taken) k where
  ok := by
    intro p a next hp hposition hread
    obtain ⟨b, p', hrun, hgoes, hcursor⟩ := h.ok hp hposition hread
    obtain ⟨taken, hrest, -, hP⟩ := htakes _ a next hread
    have hlength := congrArg List.length hrest
    have hall := Progress.offset_add_length hposition
    rw [List.length_append] at hlength
    exact ⟨b, p', hrun, ⟨hgoes, taken.length, by omega, hP⟩, hcursor⟩
  error := h.error

end Simulates

end SourceCoverage
