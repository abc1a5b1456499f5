import SourceCoverage.Zlib.Stream

/-!
# Inflation under a Limit

Who reads a stream knows how long its text has to be, from a length that may be wrong. A library
that inflates as much as it is asked for is therefore asked for one byte more than that: one byte
too many is enough to tell that the text is too long, and a text that is not longer is read to its
end, where the library finds out whether the stream is intact. `guarded` is such a reader over any
such library.

The inflation here has the limit built in and gives up when there is no room. It is nevertheless a
guarded reader: with more room than was enough the result is the same (`inflate?_mono`), so that a
stream has one text, if any, and the limit only decides whether it is given.

## Main results

* `guarded_eq_some_iff`: what a guarded reader accepts.
* `Zlib.inflate?_mono`: more room than was enough changes nothing.
* `Zlib.decompress?_unique`: a stream has at most one text.
* `Zlib.decompress?_eq_guarded`: streams are read by a guarded reader.
-/

namespace SourceCoverage

/-! ### Guarded readers -/

/-- What a library makes of a whole stream: the bytes that come out of it, and whether the stream is
intact, which shows only after the last of them. -/
structure Inflation where
  output : Bytes
  intact : Bool

/-- The text of a stream if it has the length given, read by asking for at most one byte more. -/
def guarded (inflate : Bytes → Inflation) (length : Nat) (stream : Bytes) : Option Bytes :=
  let inflation := inflate stream
  let text := inflation.output.take (length + 1)
  -- With fewer bytes than asked for the end was met, and there any fault of the stream.
  if text.length < length + 1 ∧ inflation.intact = false then none
  else if text.length = length then some text
  else none

/-- **A guarded reader accepts** the text of an intact stream at its length, and nothing else. -/
theorem guarded_eq_some_iff {inflate : Bytes → Inflation} {length : Nat} {stream data : Bytes} :
    guarded inflate length stream = some data ↔
      inflate stream = ⟨data, true⟩ ∧ data.length = length := by
  cases hstream : inflate stream with
  | mk output intact =>
    have hread : (output.take (length + 1)).length = min (length + 1) output.length :=
      List.length_take
    simp only [guarded, hstream, Inflation.mk.injEq]
    constructor
    · intro h
      split at h
      · cases h
      · rename_i hfault
        split at h
        · rename_i hlength
          have hall : output.take (length + 1) = output := List.take_of_length_le (by omega)
          obtain rfl : output = data := hall ▸ Option.some.inj h
          have hintact : intact = true := by
            cases intact with
            | true => rfl
            | false => exact absurd ⟨by omega, rfl⟩ hfault
          exact ⟨⟨rfl, hintact⟩, by omega⟩
        · cases h
    · rintro ⟨⟨rfl, rfl⟩, hlength⟩
      have hall : output.take (length + 1) = output := List.take_of_length_le (by omega)
      rw [if_neg fun hfault => Bool.noConfusion hfault.2, if_pos (by omega), hall]

namespace Zlib

/-! ### More room -/

/-- The output with room for `more` further bytes. -/
def Output.widen (more : Nat) (out : Output) : Output := ⟨out.bytes, out.room + more⟩

section Room

variable {more : Nat} {out out' : Output} {bits rest : Bits}

theorem Output.push?_widen {b : UInt8} (h : out.push? b = some out') :
    (out.widen more).push? b = some (out'.widen more) := by
  obtain ⟨bytes, room⟩ := out
  cases room with
  | zero => cases h
  | succ room =>
    obtain rfl := Option.some.inj h
    rw [Output.widen, Nat.add_right_comm]
    rfl

theorem Output.pushAll?_widen {bytes : Bytes} (h : out.pushAll? bytes = some out') :
    (out.widen more).pushAll? bytes = some (out'.widen more) := by
  induction bytes generalizing out with
  | nil => exact congrArg (Option.map (Output.widen more)) h
  | cons b bytes ih =>
    rw [Output.pushAll?, List.foldlM_cons] at h ⊢
    obtain ⟨next, hpush, hrest⟩ := Option.bind_eq_some_iff.mp h
    exact Option.bind_eq_some_iff.mpr ⟨_, Output.push?_widen hpush, ih hrest⟩

theorem Output.copy?_widen {distance length : Nat} (h : out.copy? distance length = some out') :
    (out.widen more).copy? distance length = some (out'.widen more) := by
  induction length generalizing out with
  | zero => exact congrArg (Option.map (Output.widen more)) h
  | succ length ih =>
    obtain ⟨next, hpush, hrest⟩ := Option.bind_eq_some_iff.mp h
    exact Option.bind_eq_some_iff.mpr ⟨_, Output.push?_widen hpush, ih hrest⟩

theorem readStored_widen (h : readStored out bits = some (out', rest)) :
    readStored (out.widen more) bits = some (out'.widen more, rest) := by
  unfold readStored at h ⊢
  obtain ⟨⟨length, behindLength⟩, hlength, h⟩ := Option.bind_eq_some_iff.mp h
  obtain ⟨⟨complement, behind⟩, hcomplement, h⟩ := Option.bind_eq_some_iff.mp h
  simp only [hlength, hcomplement, Option.bind_eq_bind, Option.bind_some] at h ⊢
  split at h
  · cases h
  · rename_i hsum
    split at h
    · cases h
    · rename_i henough
      obtain ⟨next, hpush, h⟩ := Option.bind_eq_some_iff.mp h
      obtain ⟨rfl, rfl⟩ := Prod.mk.inj (Option.some.inj h)
      rw [if_neg hsum, if_neg henough, Output.pushAll?_widen hpush]
      rfl

end Room

section Symbols

variable {literals distances : PrefixCode.Tree} {out next : Output} {bits rest : Bits}
  {symbol : Nat}

/-- The end mark ends the symbols. -/
theorem readSymbols_of_endOfBlock (hdecode : PrefixCode.decode literals bits = some (symbol, rest))
    (hitem : Item.ofSymbol symbol = .endOfBlock) :
    readSymbols literals distances out bits = some (out, rest) := by
  grind [readSymbols]

/-- Behind a literal the symbols go on with one more byte. -/
theorem readSymbols_of_literal {b : UInt8}
    (hdecode : PrefixCode.decode literals bits = some (symbol, rest))
    (hitem : Item.ofSymbol symbol = .literal b) (hpush : out.push? b = some next) :
    readSymbols literals distances out bits = readSymbols literals distances next rest := by
  grind [readSymbols]

/-- Behind a copy the symbols go on with the bytes that are repeated. -/
theorem readSymbols_of_copy {lengthClass length distance : Nat} {rest' : Bits}
    (hdecode : PrefixCode.decode literals bits = some (symbol, rest))
    (hitem : Item.ofSymbol symbol = .copy lengthClass)
    (hcopy : readCopy distances lengthClass rest = some ((length, distance), rest'))
    (hpush : out.copy? distance length = some next) :
    readSymbols literals distances out bits = readSymbols literals distances next rest' := by
  grind [readSymbols]

end Symbols

section Blocks

variable {more : Nat} {out out' : Output} {bits rest : Bits}

theorem readSymbols_widen {literals distances : PrefixCode.Tree}
    (h : readSymbols literals distances out bits = some (out', rest)) :
    readSymbols literals distances (out.widen more) bits = some (out'.widen more, rest) := by
  fun_induction readSymbols literals distances out bits
  case case1 | case3 | case5 | case6 => cases h
  case case2 out bits symbol behind hdecode hitem =>
    obtain ⟨rfl, rfl⟩ := Prod.mk.inj (Option.some.inj h)
    exact readSymbols_of_endOfBlock hdecode hitem
  case case4 hdecode b hitem next hpush ih =>
    rw [readSymbols_of_literal hdecode hitem (Output.push?_widen hpush)]
    exact ih h
  case case7 hdecode lengthClass hitem length distance rest' hcopy next hpush ih =>
    rw [readSymbols_of_copy hdecode hitem hcopy (Output.copy?_widen hpush)]
    exact ih h

theorem readBlock_widen {type : Nat} (h : readBlock type out bits = some (out', rest)) :
    readBlock type (out.widen more) bits = some (out'.widen more, rest) := by
  unfold readBlock at h ⊢
  split at h
  · exact readStored_widen h
  · exact readSymbols_widen h
  · obtain ⟨⟨⟨literals, distances⟩, behind⟩, htables, h⟩ := Option.bind_eq_some_iff.mp h
    exact Option.bind_eq_some_iff.mpr ⟨_, htables, readSymbols_widen h⟩
  · cases h

theorem readBlocks_widen {most : Nat} (h : readBlocks most out bits = some (out', rest)) :
    readBlocks most (out.widen more) bits = some (out'.widen more, rest) := by
  induction most generalizing out bits with
  | zero => cases h
  | succ most ih =>
    unfold readBlocks at h ⊢
    obtain ⟨⟨last, behindLast⟩, hlast, h⟩ := Option.bind_eq_some_iff.mp h
    obtain ⟨⟨type, behindType⟩, htype, h⟩ := Option.bind_eq_some_iff.mp h
    obtain ⟨⟨next, behind⟩, hblock, h⟩ := Option.bind_eq_some_iff.mp h
    refine Option.bind_eq_some_iff.mpr ⟨_, hlast, Option.bind_eq_some_iff.mpr ⟨_, htype,
      Option.bind_eq_some_iff.mpr ⟨_, readBlock_widen hblock, ?_⟩⟩⟩
    by_cases hend : last = 1
    · simp only [if_pos hend] at h ⊢
      obtain ⟨rfl, rfl⟩ := Prod.mk.inj (Option.some.inj h)
      rfl
    · simp only [if_neg hend] at h ⊢
      exact ih h

/-- **More room than was enough changes nothing.** -/
theorem inflate?_mono {limit : Nat} {text : Bytes} (h : inflate? limit bits = some (text, rest))
    (more : Nat) : inflate? (limit + more) bits = some (text, rest) := by
  obtain ⟨⟨out, behind⟩, hblocks, h⟩ := Option.bind_eq_some_iff.mp h
  exact Option.bind_eq_some_iff.mpr ⟨_, readBlocks_widen hblocks, h⟩

end Blocks

/-! ### The text of a stream -/

/-- The text of a stream has the length given, and is what its blocks inflate to. -/
theorem inflate?_of_decompress? {length : Nat} {cmf flg : UInt8} {body text : Bytes}
    (h : decompress? length (cmf :: flg :: body) = some text) : text.length = length ∧
      ∃ rest, inflate? length (Bits.ofBytes body) = some (text, rest) := by
  unfold decompress? at h
  simp only at h
  split at h
  · cases h
  · obtain ⟨⟨inflated, rest⟩, hinflate, h⟩ := Option.bind_eq_some_iff.mp h
    obtain ⟨⟨checksum, behind⟩, hchecksum, h⟩ := Option.bind_eq_some_iff.mp h
    simp only at h
    split at h
    · cases h
    · split at h
      · cases h
      · rename_i hlength
        obtain rfl := Option.some.inj h
        exact ⟨Decidable.not_not.mp hlength, rest, hinflate⟩

/-- **A stream has at most one text**, whatever lengths are asked for. -/
theorem decompress?_unique {a b : Nat} {stream first second : Bytes}
    (hfirst : decompress? a stream = some first) (hsecond : decompress? b stream = some second) :
    first = second := by
  match stream, hfirst, hsecond with
  | cmf :: flg :: body, hfirst, hsecond =>
    obtain ⟨-, rest, hinflate⟩ := inflate?_of_decompress? hfirst
    obtain ⟨-, rest', hinflate'⟩ := inflate?_of_decompress? hsecond
    have hroom := inflate?_mono hinflate b
    have hroom' := inflate?_mono hinflate' a
    rw [Nat.add_comm, hroom'] at hroom
    exact (congrArg Prod.fst (Option.some.inj hroom)).symm

/-- The text of a stream is as long as was asked for. -/
theorem length_decompress? {length : Nat} {stream text : Bytes}
    (h : decompress? length stream = some text) : text.length = length :=
  match stream, h with
  | _ :: _ :: _, h => (inflate?_of_decompress? h).1

open Classical in
/-- What comes out of a whole stream: its text if it has one, and else a fault. -/
noncomputable def inflation (stream : Bytes) : Inflation :=
  if h : ∃ length text, decompress? length stream = some text then ⟨h.choose_spec.choose, true⟩
  else ⟨[], false⟩

/-- The inflation of a stream is intact exactly if the stream can be read, and is then its text. -/
theorem inflation_eq_iff {stream text : Bytes} :
    inflation stream = ⟨text, true⟩ ↔ decompress? text.length stream = some text := by
  constructor
  · intro h
    rw [inflation] at h
    split at h
    · rename_i hexists
      have hread := hexists.choose_spec.choose_spec
      obtain rfl : hexists.choose_spec.choose = text := congrArg Inflation.output h
      rwa [length_decompress? hread]
    · cases h
  · intro h
    have hexists : ∃ length text, decompress? length stream = some text := ⟨_, _, h⟩
    rw [inflation, dif_pos hexists, decompress?_unique hexists.choose_spec.choose_spec h]

/-- **Streams are read by a guarded reader.** -/
theorem decompress?_eq_guarded : decompress? = guarded inflation := by
  funext length stream
  refine Option.ext fun text => ?_
  rw [guarded_eq_some_iff, inflation_eq_iff]
  constructor
  · intro h
    obtain rfl := length_decompress? h
    exact ⟨h, rfl⟩
  · rintro ⟨h, rfl⟩
    exact h

end Zlib

end SourceCoverage
