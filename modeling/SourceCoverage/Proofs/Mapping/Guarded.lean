import SourceCoverage.Mapping.Decoding

/-!
# A Guarded Decoder of Mappings

The readers of mappings compute with numbers of any size and give lists. This is the same decoding
as a *machine* does it, which keeps its place in the bytes as an index and its table of expressions
as an array that is changed in place, and whose numbers are words. Wherever the machine depends on
an index to be in range or on a number to fit its word, it checks this and stops at a *fault* if it
is not so. A fault is no refusal of the bytes.

The machine also counts its *work*: each byte that it looks at, each round of a loop, and each
element that it allocates because a count tells it to. Counts are taken from the bytes as they are;
a count of files sets aside no more than the number of bytes, and one of expressions must not be
larger than that.
-/

namespace SourceCoverage

/-- Why a machine stops before its end. -/
inductive Stop where
  /-- The bytes are refused. -/
  | refused (e : MappingError)
  /-- Something is looked up beyond the end of where it is kept. -/
  | outOfRange
  /-- A number does not fit its word. -/
  | overflow
  deriving Repr, DecidableEq

/-- How far a machine has come: its place in the bytes, its table of expressions, and the work that
it has done. -/
structure Progress where
  position : Nat := 0
  table : Array Expression := #[]
  work : Nat := 0
  deriving Repr, DecidableEq

/-- An operation of a machine. -/
abbrev Machine (α : Type) := EStateM Stop Progress α

namespace Machine

variable {α : Type}

/-! ### Guards and work -/

/-- Does some work. -/
def spend (amount : Nat) : Machine Unit := modify fun p => { p with work := p.work + amount }

/-- A number that has to fit a word of so many bits. -/
def word (bits n : Nat) : Machine Nat :=
  if n < 1 <<< bits then pure n else throw .overflow

/-- Refuses the bytes, with the place reached so far. -/
def refuse (defect : Defect) : Machine α := fun p =>
  .error (.refused (.malformed p.position defect)) p

/-- The table of expressions as it stands. -/
def getTable : Machine (Array Expression) := return (← get).table

/-- Allocates a table of expressions, all of them the difference of nothing. -/
def allocate (size : Nat) : Machine Unit := do
  spend size
  modify ({ · with table := Array.replicate size ⟨.subtract, .zero, .zero⟩ })

/-- Changes an expression of the table, which has to be there. -/
def update (index : Nat) (f : Expression → Expression) : Machine Unit := fun p =>
  if index < p.table.size then .ok () { p with table := p.table.modify index f }
  else .error .outOfRange p

/-- Does something a number of times. -/
def times (machine : Machine α) : (count : Nat) → Machine (List α)
  | 0 => return []
  | count + 1 => do
    spend 1
    let first ← machine
    let others ← times machine count
    return first :: others

/-! ### Values -/

/-- Goes on with a value of which `shift` bits, `value`, and `length` bytes are read already. The
answer is the value and the number of its bytes. -/
def scan (shift value length : Nat) : Bytes → Machine (Option (Nat × Nat))
  | [] => return none
  | b :: rest => do
    spend 1
    let digit := b.toNat % 128
    if 64 ≤ shift ∨ shift = 63 ∧ 1 < digit then return none
    else do
      let digit ← word 64 (digit <<< shift)
      let length ← word 64 (length + 1)
      if b.toNat < 128 then return some (value ||| digit, length)
      else do
        let shift ← word 32 (shift + 7)
        scan shift (value ||| digit) length rest

/-- The bytes that remain, which start no later than behind the last one. -/
def remaining (bytes : Bytes) : Machine Bytes := fun p =>
  if p.position ≤ bytes.length then .ok (bytes.drop p.position) p else .error .outOfRange p

/-- Moves some bytes on. -/
def advance (length : Nat) : Machine Unit := do
  let position ← word 64 ((← get).position + length)
  modify ({ · with position })

/-- Reads a 64-bit value. -/
def uleb (bytes : Bytes) : Machine UInt64 := do
  let rest ← remaining bytes
  match ← scan 0 0 0 rest with
  | some (value, length) => do
    advance length
    return UInt64.ofNat value
  | none => refuse .truncatedValue

/-- Reads a value that has to fit in 32 bits. -/
def uleb32 (bytes : Bytes) : Machine UInt32 := do
  let value ← uleb bytes
  if value.toNat < UInt32.size then return UInt32.ofNat value.toNat else refuse .valueTooWide

/-! ### Counters and expressions -/

/-- The counter that a value stands for. One that refers to an expression settles the operator of
this. -/
def counterOf (value : UInt64) : Machine Counter := do
  let table ← getTable
  let tag := value.toNat % 4
  let id := value.toNat / 4
  if UInt32.size ≤ id then refuse .counterTooWide
  else if tag = 0 then return .zero
  else if tag = 1 then return .physical (UInt32.ofNat id)
  else if table.size ≤ id then refuse .missingExpression
  else do
    update id ({ · with operator := if tag = 3 then .add else .subtract })
    return .expression (UInt32.ofNat id)

/-- Reads a counter. -/
def counter (bytes : Bytes) : Machine Counter := do
  counterOf (← uleb bytes)

/-- Reads the operands of an expression. -/
def expression (bytes : Bytes) : Machine (Counter × Counter) := do
  let lhs ← counter bytes
  let rhs ← counter bytes
  return (lhs, rhs)

/-- Reads the operands of the expressions from `index` on. -/
def operands (bytes : Bytes) : (count index : Nat) → Machine Unit
  | 0, _ => return ()
  | count + 1, index => do
    spend 1
    let (lhs, rhs) ← expression bytes
    update index ({ · with lhs })
    update index ({ · with rhs })
    operands bytes count (index + 1)

/-! ### Regions -/

/-- Reads the header of a region, and the counters of a branch. -/
def regionKind (bytes : Bytes) : Machine RegionKind := do
  let header ← uleb bytes
  if header.toNat % 4 ≠ 0 then do
    let count ← counterOf header
    return .code count
  else if header.toNat / 4 % 2 = 1 then
    if UInt32.size ≤ header.toNat / 8 then refuse .expansionTooWide
    else return .expansion (UInt32.ofNat (header.toNat / 8))
  else
    match header.toNat / 8 with
    | 0 => return .code .zero
    | 2 => return .skipped
    | 4 => do
      let whenTrue ← counter bytes
      let whenFalse ← counter bytes
      return .branch whenTrue whenFalse
    | _ => refuse .unsupportedRegion

/-- The sum of two numbers of lines, refused where it does not fit its word. -/
def addLines (lines others : UInt32) : Machine UInt32 :=
  if UInt32.size ≤ lines.toNat + others.toNat then refuse .lineOverflow
  else do
    let sum ← word 32 (lines.toNat + others.toNat)
    return UInt32.ofNat sum

/-- Reads a region that follows one starting at `previousLine`. -/
def region (bytes : Bytes) (file previousLine : UInt32) : Machine Region := do
  let kind ← regionKind bytes
  let down ← uleb32 bytes
  let columnStart ← uleb32 bytes
  let height ← uleb32 bytes
  let columnEnd ← uleb32 bytes
  let kind := if gapBit ≤ columnEnd then kind.asGap else kind
  let columnEnd := if gapBit ≤ columnEnd then columnEnd - gapBit else columnEnd
  let lineStart ← addLines previousLine down
  let lineEnd ← addLines lineStart height
  return ⟨kind, file, ⟨lineStart, columnStart, lineEnd, columnEnd⟩⟩

/-- Reads the regions of a file that follow one starting at `previousLine`. -/
def regions (bytes : Bytes) (file : UInt32) :
    (count : Nat) → (previousLine : UInt32) → Machine (List Region)
  | 0, _ => return []
  | count + 1, previousLine => do
    spend 1
    let first ← region bytes file previousLine
    let others ← regions bytes file count first.span.lineStart
    return first :: others

/-- Reads the regions of the files that remain. -/
def fileRegions (bytes : Bytes) : (files : List Nat) → Machine (List Region)
  | [] => return []
  | file :: files => do
    spend 1
    let count ← uleb bytes
    let own ← regions bytes (UInt32.ofNat file) count.toNat 0
    let others ← fileRegions bytes files
    return own ++ others

/-! ### Mappings -/

/-- Accepts the end of the bytes only. -/
def finish (bytes : Bytes) (defect : Defect) : Machine Unit := fun p =>
  if p.position = bytes.length then .ok () p else refuse defect p

/-- Reads a mapping, up to the end of the bytes. -/
def mapping (bytes : Bytes) : Machine Mapping := do
  let fileCount ← uleb bytes
  spend (min fileCount.toNat bytes.length)
  let files ← times (uleb32 bytes) fileCount.toNat
  let count ← uleb bytes
  if bytes.length < count.toNat then refuse .expressionCount
  else do
    allocate count.toNat
    operands bytes count.toNat 0
    let fileIds ← word 32 fileCount.toNat
    let regions ← fileRegions bytes (List.range fileIds)
    finish bytes .afterRegions
    let table ← getTable
    return ⟨files, table.toList, regions⟩

end Machine

end SourceCoverage
