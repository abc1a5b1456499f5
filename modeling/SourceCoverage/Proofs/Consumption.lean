import SourceCoverage.Proofs.Reading

/-!
# What Readers Take

A reader sees all the bytes that remain, but what it gives it gives from the first few of them,
and these it takes. To say so of a reader is to say that from the bytes it took it reads the same
value wherever they stand and whatever follows them. `Reader.Takes` says this, together with a
property of the value and of the number of bytes taken, for all values that a reader gives; it is
proved once for every reader, from those of its parts.

A reader of a whole byte string ends by accepting the end only. It can therefore not have
succeeded where more bytes follow: `Reader.TakesAll`.

## Main results

* `Leb128.readFrom_take`: a value is read from its own bytes, whatever follows them.
* `Reader.Takes.bind`, `Reader.Takes.repeatedly`: what readers in a row take.
* `Reader.TakesAll.bind`, `Reader.TakesAll.finish`: what readers up to the end take.
-/

namespace SourceCoverage

/-- A value is read from its own bytes, whatever follows them. Induction on the bytes: each digit
but the last leaves the rest of the value to those behind it. -/
theorem Leb128.readFrom_take {shift value value' length : Nat} {bytes : Bytes}
    (h : readFrom shift value bytes = some (value', length)) (rest : Bytes) :
    readFrom shift value (bytes.take length ++ rest) = some (value', length) := by
  induction bytes generalizing shift value length with
  | nil => simp [readFrom] at h
  | cons b bytes ih =>
      simp only [readFrom] at h
      split at h
      · cases h
      · next hshift =>
          split at h
          · next hlast =>
              obtain ⟨rfl, rfl⟩ := Prod.mk.inj (Option.some.inj h)
              simp [readFrom, hshift, hlast]
          · next hlast =>
              obtain ⟨⟨v, l⟩, hread, heq⟩ := Option.map_eq_some_iff.1 h
              obtain ⟨rfl, rfl⟩ := Prod.mk.inj heq
              simp [readFrom, hshift, hlast, ih hread]

namespace Reader

variable {α β : Type} {reader first : Reader α} {second : α → Reader β}

/-- Whatever a reader gives, it gives **from the bytes it takes alone**, and `P` holds of the value
and of the number of these bytes. -/
def Takes (reader : Reader α) (P : α → Nat → Prop) : Prop :=
  ∀ cursor a next, reader cursor = .ok (a, next) →
    ∃ taken, cursor.rest = taken ++ next.rest ∧ Reads reader taken a ∧ P a taken.length

namespace Takes

variable {P : α → Nat → Prop} {Q : β → Nat → Prop}

/-- What holds of what a reader takes may be said less of. -/
theorem mono {P' : α → Nat → Prop} (h : Takes reader P) (himp : ∀ a n, P a n → P' a n) :
    Takes reader P' := by
  intro cursor a next hread
  obtain ⟨taken, hrest, hreads, hP⟩ := h cursor a next hread
  exact ⟨taken, hrest, hreads, himp a _ hP⟩

/-- A reader that takes nothing. -/
theorem pure {a : α} (h : P a 0) : Takes (pure a) P := by
  intro cursor a' next hread
  obtain ⟨rfl, rfl⟩ := pure_eq_ok.1 hread
  exact ⟨[], rfl, .pure a, h⟩

/-- A reader that fails gives nothing. -/
theorem fail {defect : Defect} : Takes (Cursor.fail defect) P := by
  intro cursor a next hread
  cases hread

/-- Two readers in a row take the bytes of the one and those of the other. -/
theorem bind (hfirst : Takes first P)
    (hsecond : ∀ a m, P a m → Takes (second a) fun b n => Q b (m + n)) :
    Takes (first >>= second) Q := by
  intro cursor b next hread
  obtain ⟨a, between, hread, hread'⟩ := bind_eq_ok.1 hread
  obtain ⟨taken, hrest, hreads, hP⟩ := hfirst cursor a between hread
  obtain ⟨taken', hrest', hreads', hQ⟩ := hsecond a _ hP between b next hread'
  refine ⟨taken ++ taken', ?_, hreads.bind hreads', ?_⟩
  · rw [hrest, hrest', List.append_assoc]
  · rw [List.length_append]
    exact hQ

/-- Nothing comes behind a reader that fails. -/
theorem fail_bind {defect : Defect} : Takes (Cursor.fail defect >>= second) Q :=
  bind (P := fun _ _ => False) fail fun _ _ h => h.elim

/-- A value takes at least one byte. -/
theorem uleb : Takes Cursor.uleb fun _ n => 1 ≤ n := by
  intro cursor a next hread
  unfold Cursor.uleb at hread
  split at hread
  · next value length hvalue =>
      obtain ⟨rfl, rfl⟩ := Prod.mk.inj (Except.ok.inj hread)
      obtain ⟨⟨v, l⟩, hfrom, heq⟩ := Option.map_eq_some_iff.1 hvalue
      obtain ⟨rfl, rfl⟩ := Prod.mk.inj heq
      obtain ⟨hpos, hle⟩ := Leb128.length_pos_of_readFrom hfrom
      have hlength : (cursor.rest.take l).length = l := List.length_take_of_le hle
      refine ⟨cursor.rest.take l, (List.take_append_drop l cursor.rest).symm, ?_, ?_⟩
      · intro offset rest
        have hread? : Leb128.read? (cursor.rest.take l ++ rest) = some (UInt64.ofNat v, l) := by
          rw [Leb128.read?, Leb128.readFrom_take hfrom]
          rfl
        simp only [Cursor.uleb, hread?, Cursor.advance, hlength]
        rw [List.drop_append_of_le_length hlength.ge, List.drop_eq_nil_of_le hlength.le,
          List.nil_append]
      · rw [hlength]
        exact hpos
  · cases hread

/-- So does one that fits in 32 bits. -/
theorem uleb32 : Takes Cursor.uleb32 fun _ n => 1 ≤ n := by
  refine uleb.bind fun value m hm => ?_
  split
  · exact pure hm
  · exact fail

/-- As many bytes are taken as are asked for. -/
theorem take (length : Nat) : Takes (Cursor.take length) fun _ n => n = length := by
  intro cursor bytes next hread
  unfold Cursor.take at hread
  split at hread
  · next hlength =>
      obtain ⟨rfl, rfl⟩ := Prod.mk.inj (Except.ok.inj hread)
      refine ⟨cursor.rest.take length, (List.take_append_drop length cursor.rest).symm, ?_, hlength⟩
      intro offset rest
      simp [Cursor.take, Cursor.advance, hlength]
  · cases hread

/-- A number of things in a row take at least as many bytes as that many of the least of them. -/
theorem repeatedly {P : α → Prop} {least : Nat} (h : Takes reader fun a n => P a ∧ least ≤ n)
    (count : Nat) : Takes (Cursor.repeatedly reader count)
      fun as n => as.length = count ∧ (∀ a ∈ as, P a) ∧ least * count ≤ n := by
  induction count with
  | zero => exact pure ⟨rfl, by simp, Nat.le_refl _⟩
  | succ count ih =>
      refine h.bind fun a m ⟨ha, hm⟩ => ih.bind fun as n ⟨hlength, has, hn⟩ => pure ?_
      refine ⟨by rw [List.length_cons, hlength], List.forall_mem_cons.2 ⟨ha, has⟩, ?_⟩
      rw [Nat.mul_succ]
      omega

end Takes

/-- Whatever a reader gives, it gives **from all the bytes**: where more of them follow, it refuses
them with `defect`, noticed at the first one. `P` holds of the value and of the number of bytes. -/
def TakesAll (reader : Reader α) (defect : Defect) (P : α → Nat → Prop) : Prop :=
  ∀ cursor a next, reader cursor = .ok (a, next) → P a cursor.rest.length ∧
    ∀ rest, rest ≠ [] → reader ⟨cursor.offset, cursor.rest ++ rest⟩
      = .error (.malformed (cursor.offset + cursor.rest.length) defect)

namespace TakesAll

variable {defect : Defect} {P : α → Nat → Prop} {Q : β → Nat → Prop}

/-- Of two readers in a row, the second one comes to the end. -/
theorem bind (hfirst : Takes first P)
    (hsecond : ∀ a m, P a m → TakesAll (second a) defect fun b n => Q b (m + n)) :
    TakesAll (first >>= second) defect Q := by
  rintro ⟨offset, bytes⟩ b next hread
  obtain ⟨a, ⟨offset', bytes'⟩, hread, hread'⟩ := bind_eq_ok.1 hread
  obtain ⟨taken, rfl, hreads, hP⟩ := hfirst _ a _ hread
  obtain rfl : offset' = offset + taken.length := by
    have hbetween := hread.symm.trans (hreads offset bytes')
    simpa using hbetween
  obtain ⟨hQ, hrefuses⟩ := hsecond a _ hP _ b next hread'
  simp only [List.length_append, List.append_assoc]
  refine ⟨hQ, fun rest hrest => ?_⟩
  change Except.bind (first ⟨offset, taken ++ (bytes' ++ rest)⟩) (fun r => second r.1 r.2) = _
  rw [hreads offset (bytes' ++ rest), ← Nat.add_assoc]
  exact hrefuses rest hrest

/-- The end of the bytes is accepted where nothing follows. -/
theorem finish {a : α} (h : P a 0) :
    TakesAll (Cursor.finish defect >>= fun _ => Pure.pure a) defect P := by
  intro cursor a' next hread
  obtain ⟨_, between, hfinish, hread⟩ := bind_eq_ok.1 hread
  obtain ⟨rfl, -⟩ := pure_eq_ok.1 hread
  unfold Cursor.finish at hfinish
  split at hfinish
  · next hnil =>
      rw [hnil]
      refine ⟨h, fun rest hrest => ?_⟩
      change Except.bind (Cursor.finish defect ⟨cursor.offset, rest⟩) _ = _
      rw [Cursor.finish, if_neg hrest]
      rfl
  · cases hfinish

end TakesAll

/-- A reader behind a count that must not be larger than the number of all bytes, those before the
cursor included. -/
def unlessShort (count : Nat) (short : Defect) (reader : Reader α) : Reader α := do
  let cursor ← get
  if cursor.offset + cursor.rest.length < count then Cursor.fail short
  reader

/-- With too few bytes it fails, and with enough of them the count makes no difference. -/
theorem unlessShort_apply (count : Nat) (short : Defect) (reader : Reader α) (cursor : Cursor) :
    unlessShort count short reader cursor
      = if cursor.offset + cursor.rest.length < count then Cursor.fail short cursor
        else reader cursor := by
  change (if cursor.offset + cursor.rest.length < count then _ else reader) cursor = _
  by_cases hcount : cursor.offset + cursor.rest.length < count
  · rw [if_pos hcount, if_pos hcount]
    rfl
  · rw [if_neg hcount, if_neg hcount]

/-- Where there are enough bytes, there are enough with more of them. -/
theorem TakesAll.unlessShort {count : Nat} {short defect : Defect} {P : α → Nat → Prop}
    (h : TakesAll reader defect P) : TakesAll (unlessShort count short reader) defect P := by
  intro cursor a next hread
  rw [unlessShort_apply] at hread
  split at hread
  · cases hread
  · next hcount =>
      obtain ⟨hP, hrefuses⟩ := h cursor a next hread
      refine ⟨hP, fun rest hrest => ?_⟩
      rw [unlessShort_apply, if_neg]
      · exact hrefuses rest hrest
      · simp only [List.length_append]
        omega

end Reader

end SourceCoverage
