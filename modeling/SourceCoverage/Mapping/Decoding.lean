import SourceCoverage.Cursor
import SourceCoverage.Mapping.Encoding

/-!
# The Decoding of Mappings

The inverse of the encoding: reads a mapping back from bytes and refuses everything that no
mapping is written as. Counts are taken from the bytes without trust; since everything counted
takes bytes of its own, a count that is too large ends in an error as soon as the bytes run out.

The operator of an expression is not known until a counter refers to it, and then only through
the tag of that reference. The readers therefore give, with each counter, what it *mentions*: the
expression it refers to and the operator it claims for it. When all is read, an expression has
the operator of its last mention, and is a difference if there is none.
-/

namespace SourceCoverage

/-- The operator that a reference claims for the expression it refers to. -/
structure Mention where
  id : UInt32
  operator : Operator
  deriving Repr, DecidableEq

open Cursor

/-- The counter that a value stands for, among `count` expressions, with what it mentions. -/
def Counter.ofWord (count : Nat) (value : UInt64) : Reader (Counter × List Mention) :=
  let tag := value.toNat % 4
  let id := value.toNat / 4
  if UInt32.size ≤ id then fail .counterTooWide
  else if tag = 0 then return (.zero, [])
  else if tag = 1 then return (.physical (UInt32.ofNat id), [])
  else if count ≤ id then fail .missingExpression
  else
    return (.expression (UInt32.ofNat id),
      [⟨UInt32.ofNat id, if tag = 3 then .add else .subtract⟩])

/-- Reads a counter. -/
def Counter.read (count : Nat) : Reader (Counter × List Mention) := do
  Counter.ofWord count (← uleb)

/-- Reads the operands of an expression. Its operator is not known yet. -/
def Expression.read (count : Nat) : Reader ((Counter × Counter) × List Mention) := do
  let (lhs, mentioned) ← Counter.read count
  let (rhs, mentioned') ← Counter.read count
  return ((lhs, rhs), mentioned ++ mentioned')

/-- Reads the header of a region, and the counters of a branch. A gap is read as code. -/
def RegionKind.read (count : Nat) : Reader (RegionKind × List Mention) := do
  let header ← uleb
  if header.toNat % 4 ≠ 0 then
    let (counter, mentioned) ← Counter.ofWord count header
    return (.code counter, mentioned)
  if header.toNat / 4 % 2 = 1 then
    if UInt32.size ≤ header.toNat / 8 then fail .expansionTooWide
    return (.expansion (UInt32.ofNat (header.toNat / 8)), [])
  match header.toNat / 8 with
  | 0 => return (.code .zero, [])
  | 2 => return (.skipped, [])
  | 4 =>
    let (whenTrue, mentioned) ← Counter.read count
    let (whenFalse, mentioned') ← Counter.read count
    return (.branch whenTrue whenFalse, mentioned ++ mentioned')
  | _ => fail .unsupportedRegion

/-- The kind of a region whose end column bears the mark of a gap. The mark means nothing to
regions that are not code. -/
def RegionKind.asGap : RegionKind → RegionKind
  | .code count => .gap count
  | kind => kind

/-- Reads a region that follows one starting at `previousLine`. -/
def Region.read (count : Nat) (file previousLine : UInt32) : Reader (Region × List Mention) := do
  let (kind, mentioned) ← RegionKind.read count
  let down ← uleb32
  let columnStart ← uleb32
  let height ← uleb32
  let columnEnd ← uleb32
  let kind := if gapBit ≤ columnEnd then kind.asGap else kind
  let columnEnd := if gapBit ≤ columnEnd then columnEnd - gapBit else columnEnd
  if UInt32.size ≤ previousLine.toNat + down.toNat then fail .lineOverflow
  let lineStart := previousLine + down
  if UInt32.size ≤ lineStart.toNat + height.toNat then fail .lineOverflow
  return (⟨kind, file, ⟨lineStart, columnStart, lineStart + height, columnEnd⟩⟩, mentioned)

/-- Reads the `n` regions of a file that follow one starting at `previousLine`. -/
def readRegions (count : Nat) (file : UInt32) :
    (n : Nat) → (previousLine : UInt32) → Reader (List Region × List Mention)
  | 0, _ => return ([], [])
  | n + 1, previousLine => do
    let (region, mentioned) ← Region.read count file previousLine
    let (others, mentioned') ← readRegions count file n region.span.lineStart
    return (region :: others, mentioned ++ mentioned')

/-- Reads the regions of the files that remain. -/
def readFiles (count : Nat) : (files : List Nat) → Reader (List Region × List Mention)
  | [] => return ([], [])
  | file :: files => do
    let n ← uleb
    let (regions, mentioned) ← readRegions count (UInt32.ofNat file) n.toNat 0
    let (others, mentioned') ← readFiles count files
    return (regions ++ others, mentioned ++ mentioned')

/-- The operator of an expression: the one that its last mention claims. -/
def operatorOf (mentions : List Mention) (id : Nat) : Operator :=
  match mentions.reverse.find? (·.id.toNat = id) with
  | some mention => mention.operator
  | none => .subtract

/-- The operators of all of `count` expressions. A mention overwrites what earlier ones claimed. -/
def operatorTable (count : Nat) (mentions : List Mention) : Array Operator :=
  mentions.foldl (fun table mention => table.setIfInBounds mention.id.toNat mention.operator)
    (Array.replicate count .subtract)

/-- A further mention settles the operator of the expression it is about, and of no other. -/
theorem operatorOf_append_singleton (mentions : List Mention) (mention : Mention) (id : Nat) :
    operatorOf (mentions ++ [mention]) id
      = if mention.id.toNat = id then mention.operator else operatorOf mentions id := by
  unfold operatorOf
  by_cases h : mention.id.toNat = id <;> simp [h]

@[simp] theorem size_operatorTable (count : Nat) (mentions : List Mention) :
    (operatorTable count mentions).size = count := by
  have key (table : Array Operator) :
      (mentions.foldl (fun table mention =>
        table.setIfInBounds mention.id.toNat mention.operator) table).size = table.size := by
    induction mentions generalizing table with
    | nil => rfl
    | cons mention mentions ih => simp [ih]
  simp [operatorTable, key]

/-- The table holds the operator of each expression. -/
theorem getElem?_operatorTable (count : Nat) (mentions : List Mention) (id : Nat) :
    (operatorTable count mentions)[id]?
      = if id < count then some (operatorOf mentions id) else none := by
  have key : ∀ reversed : List Mention,
      (operatorTable count reversed.reverse)[id]?
        = if id < count then some (operatorOf reversed.reverse id) else none := by
    intro reversed
    induction reversed with
    | nil => simp [operatorTable, operatorOf, Array.getElem?_replicate]
    | cons mention reversed ih =>
      have step : operatorTable count (reversed.reverse ++ [mention])
          = (operatorTable count reversed.reverse).setIfInBounds mention.id.toNat
            mention.operator := by simp [operatorTable]
      rw [List.reverse_cons, step, operatorOf_append_singleton, Array.getElem?_setIfInBounds, ih,
        size_operatorTable]
      grind
  simpa using key mentions.reverse

namespace Mapping

/-- Reads a mapping, up to the end of the bytes. -/
def read : Reader Mapping := do
  let fileCount ← uleb
  let files ← repeatedly uleb32 fileCount.toNat
  let count ← uleb
  let cursor ← get
  if cursor.offset + cursor.rest.length < count.toNat then fail .expressionCount
  let operands ← repeatedly (Expression.read count.toNat) count.toNat
  let (regions, mentioned) ← readFiles count.toNat (List.range (files.length % UInt32.size))
  finish .afterRegions
  let mentions := operands.flatMap (·.2) ++ mentioned
  let operators := operatorTable count.toNat mentions
  let expressions := operands.zipWith (fun ((lhs, rhs), _) operator => ⟨operator, lhs, rhs⟩)
    operators.toList
  return ⟨files, expressions, regions⟩

/-- The mapping that the bytes encode. -/
def decode (bytes : Bytes) : Except MappingError Mapping :=
  (read.run (Cursor.start bytes)).map (·.1)

end Mapping

end SourceCoverage
