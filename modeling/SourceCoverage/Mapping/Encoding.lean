import SourceCoverage.Leb128
import SourceCoverage.Mapping.Numbering

/-!
# The Encoding of Mappings

A mapping is encoded in two steps. It is first brought into its *canonical* form, in which
regions are in order, no expression is out of the regions' reach, and expressions are numbered as
the regions reach them; then the canonical mapping is written down, as LEB128 values throughout:

* the number of files, and the position of each in the filenames table;
* the number of expressions, and the two operands of each;
* for each file the number of its regions, and for each region its header, its line as a
  difference to that of the region before, its start column, the number of lines it goes down,
  and its end column.

The operator of an expression is not written with its operands: every reference to the expression
carries it.

A mapping with regions that cannot be represented, or that reach beyond the expression table, has
no encoding.
-/

namespace SourceCoverage

/-- The bit of an end column that marks a gap region. -/
def gapBit : UInt32 := 0x80000000

/-! ### What can be encoded -/

/-- Refuses a region outside the mapping's files, or whose span is not representable. -/
def Region.check (fileCount : Nat) (region : Region) : Except MappingError Unit := do
  let ⟨lineStart, columnStart, lineEnd, columnEnd⟩ := region.span
  let fault (f : SpanFault) : Except MappingError Unit :=
    .error (.invalidSpan lineStart columnStart lineEnd columnEnd f)
  if fileCount ≤ region.file.toNat then throw (.fileOutOfRange region.file fileCount)
  if let .expansion file := region.kind then
    if fileCount ≤ file.toNat then throw (.expansionOutOfRange file fileCount)
  if lineStart = 0 ∨ columnStart = 0 ∨ lineEnd = 0 ∨ columnEnd = 0 then fault .zeroCoordinate
  if gapBit ≤ columnEnd then fault .markerBit
  if lineEnd < lineStart ∨ lineEnd = lineStart ∧ columnEnd < columnStart then fault .reversed

namespace Mapping

/-- Refuses a mapping with a region that cannot be represented. -/
def check (mapping : Mapping) : Except MappingError Unit :=
  mapping.regions.forM (Region.check mapping.files.length)

/-- The mapping under a numbering of its expressions, with its regions in order. -/
def arrange (mapping : Mapping) (order : List Nat) : Mapping where
  files := mapping.files
  expressions :=
    (order.filterMap (mapping.expressions[·]?)).map (·.mapOperands (Counter.renumber order))
  regions := (mapping.regions.mergeSort Region.le).map (·.mapCounters (Counter.renumber order))

/-- The canonical form of a mapping, if it can be encoded. -/
def canonical (mapping : Mapping) : Except MappingError Mapping := do
  mapping.check
  let order ← mapping.expressionOrder
  return mapping.arrange order

end Mapping

/-! ### Written forms -/

/-- The value that stands for a counter: two tag bits, which for an expression tell its operator,
and above them the position that the counter refers to. -/
def Counter.word (expressions : List Expression) : Counter → Nat
  | .zero => 0
  | .physical id => 1 + 4 * id.toNat
  | .expression id =>
    match expressions[id.toNat]? with
    | some ⟨.add, _, _⟩ => 3 + 4 * id.toNat
    | _ => 2 + 4 * id.toNat

/-- The written form of a counter. -/
def Counter.toBytes (expressions : List Expression) (counter : Counter) : Bytes :=
  Leb128.writeNat (counter.word expressions)

/-- The written form of an expression's operands. -/
def Expression.toBytes (expressions : List Expression) (e : Expression) : Bytes :=
  e.lhs.toBytes expressions ++ e.rhs.toBytes expressions

/-- The header of a region. Code and gaps have their counter for one. Of the others the tag bits
are zero: bit 2 marks an expansion, and the bits above it hold its file; without that mark they
hold 2 for a skipped region and 4 for a branch, whose counters follow. -/
def RegionKind.toBytes (expressions : List Expression) : RegionKind → Bytes
  | .code count => count.toBytes expressions
  | .gap count => count.toBytes expressions
  | .expansion file => Leb128.writeNat (4 + 8 * file.toNat)
  | .skipped => Leb128.writeNat (8 * 2)
  | .branch whenTrue whenFalse =>
    Leb128.writeNat (8 * 4) ++ whenTrue.toBytes expressions ++ whenFalse.toBytes expressions

/-- The end column as it is written: with the marker bit in a gap region. -/
def Region.markedColumnEnd (region : Region) : UInt32 :=
  match region.kind with
  | .gap _ => region.span.columnEnd ||| gapBit
  | _ => region.span.columnEnd

/-- The written form of a region that follows one starting at `previousLine`. -/
def Region.toBytes (expressions : List Expression) (previousLine : UInt32) (region : Region) :
    Bytes :=
  region.kind.toBytes expressions
    ++ Leb128.writeNat (region.span.lineStart - previousLine).toNat
    ++ Leb128.writeNat region.span.columnStart.toNat
    ++ Leb128.writeNat (region.span.lineEnd - region.span.lineStart).toNat
    ++ Leb128.writeNat region.markedColumnEnd.toNat

/-- The written form of the regions that follow one starting at `previousLine`. -/
def regionsToBytes (expressions : List Expression) (previousLine : UInt32) : List Region → Bytes
  | [] => []
  | region :: rest =>
    region.toBytes expressions previousLine ++ regionsToBytes expressions region.span.lineStart rest

namespace Mapping

/-- The regions of one file. -/
def regionsOf (mapping : Mapping) (file : Nat) : List Region :=
  mapping.regions.filter (·.file.toNat = file)

/-- The written form of the regions of one file. -/
def fileToBytes (mapping : Mapping) (file : Nat) : Bytes :=
  Leb128.writeNat (mapping.regionsOf file).length
    ++ regionsToBytes mapping.expressions 0 (mapping.regionsOf file)

/-- The written form of a canonical mapping. Regions number their files by 32-bit words, and so
does the loop over the files: it counts to the length of the file list as such a word. -/
def toBytes (mapping : Mapping) : Bytes :=
  Leb128.writeNat mapping.files.length
    ++ mapping.files.flatMap (fun file => Leb128.writeNat file.toNat)
    ++ Leb128.writeNat mapping.expressions.length
    ++ mapping.expressions.flatMap (·.toBytes mapping.expressions)
    ++ (List.range (mapping.files.length % UInt32.size)).flatMap mapping.fileToBytes

/-- Appends the encoding of a mapping to a buffer. Whatever is refused is refused before anything
is appended. -/
def write (mapping : Mapping) : EStateM MappingError Bytes Unit := do
  let canonical ← MonadExcept.ofExcept mapping.canonical
  modify (· ++ canonical.toBytes)

/-- The encoding of a mapping: what is written to an empty buffer. -/
def encode (mapping : Mapping) : Except MappingError Bytes :=
  match mapping.write [] with
  | .ok _ bytes => .ok bytes
  | .error e _ => .error e

end Mapping

end SourceCoverage
