import SourceCoverage.Leb128
import SourceCoverage.Error

/-!
# Reading Byte Strings

The decoders of this library read a byte string from front to back. A *cursor* holds the bytes
that remain and how many came before them, so that a defect can be reported with the place at
which it was noticed. A reader moves a cursor or fails.

## Main results

* `Cursor.uleb_shortens` — reading a value takes at least one byte.
-/

namespace SourceCoverage

/-- A place in a byte string: how many bytes lie before it, and those that follow. -/
structure Cursor where
  offset : Nat
  rest : Bytes
  deriving Repr, DecidableEq

/-- A function that takes something from the bytes at a cursor. -/
abbrev Reader (α : Type) := StateT Cursor (Except MappingError) α

/-! ### Sequences of readers -/

namespace Reader

/-- Two readers in a row succeed exactly when each of them does. -/
theorem bind_eq_ok {α β : Type} {first : Reader α} {second : α → Reader β} {b : β}
    {cursor next : Cursor} :
    (first >>= second) cursor = .ok (b, next)
      ↔ ∃ a between, first cursor = .ok (a, between) ∧ second a between = .ok (b, next) := by
  change Except.bind (first cursor) (fun r => second r.1 r.2) = .ok (b, next) ↔ _
  cases first cursor with
  | error e => simp [Except.bind]
  | ok r =>
    obtain ⟨a, between⟩ := r
    constructor
    · exact fun h => ⟨a, between, rfl, h⟩
    · rintro ⟨_, _, h, h'⟩
      obtain ⟨rfl, rfl⟩ := Prod.mk.inj (Except.ok.inj h)
      exact h'

/-- A reader that takes nothing stays where it is. -/
theorem pure_eq_ok {α : Type} {a b : α} {cursor next : Cursor} :
    (pure a : Reader α) cursor = .ok (b, next) ↔ a = b ∧ cursor = next := by
  change (Except.ok (a, cursor) : Except MappingError (α × Cursor)) = .ok (b, next) ↔ _
  simp

end Reader

/-! ### Cursors -/

namespace Cursor

/-- The cursor at the start of a byte string. -/
def start (bytes : Bytes) : Cursor := ⟨0, bytes⟩

/-- The cursor some bytes further on. -/
def advance (cursor : Cursor) (length : Nat) : Cursor :=
  ⟨cursor.offset + length, cursor.rest.drop length⟩

/-- Fails, with the place reached so far. -/
def fail {α : Type} (defect : Defect) : Reader α := fun cursor =>
  .error (.malformed cursor.offset defect)

/-- Reads a 64-bit value. -/
def uleb : Reader UInt64 := fun cursor =>
  match Leb128.read? cursor.rest with
  | some (value, length) => .ok (value, cursor.advance length)
  | none => .error (.malformed cursor.offset .truncatedValue)

/-- Reads a value that has to fit in 32 bits; what is too wide is noticed behind it. -/
def uleb32 : Reader UInt32 := do
  let value ← uleb
  if value.toNat < UInt32.size then return UInt32.ofNat value.toNat else fail .valueTooWide

/-- Takes a number of bytes. -/
def take (length : Nat) : Reader Bytes := fun cursor =>
  if (cursor.rest.take length).length = length then
    .ok (cursor.rest.take length, cursor.advance length)
  else .error (.malformed cursor.offset .pastEnd)

/-- Accepts the end of the bytes only. -/
def finish (defect : Defect) : Reader Unit := fun cursor =>
  if cursor.rest = [] then .ok ((), cursor) else .error (.malformed cursor.offset defect)

/-- Reads a number of things in a row. -/
def repeatedly {α : Type} (reader : Reader α) : (count : Nat) → Reader (List α)
  | 0 => return []
  | count + 1 => do
    let first ← reader
    let others ← repeatedly reader count
    return first :: others

/-! ### Progress -/

/-- Reading a value takes at least one byte. -/
theorem uleb_shortens {cursor next : Cursor} {value : UInt64}
    (h : uleb cursor = .ok (value, next)) : next.rest.length < cursor.rest.length := by
  unfold uleb at h
  split at h
  · rename_i v l hread
    obtain ⟨⟨v', l'⟩, hfrom, heq⟩ := Option.map_eq_some_iff.1 hread
    have := Leb128.length_pos_of_readFrom hfrom
    simp only [Prod.mk.injEq] at heq
    simp only [Except.ok.injEq, Prod.mk.injEq] at h
    rw [← h.2, advance, List.length_drop]
    omega
  · simp at h

/-- Taking bytes leaves no more than there were. -/
theorem take_length_le {cursor next : Cursor} {length : Nat} {bytes : Bytes}
    (h : take length cursor = .ok (bytes, next)) : next.rest.length ≤ cursor.rest.length := by
  unfold take at h
  split at h
  · simp only [Except.ok.injEq, Prod.mk.injEq] at h
    rw [← h.2, advance, List.length_drop]
    omega
  · simp at h

end Cursor

end SourceCoverage
