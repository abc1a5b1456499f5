import SourceCoverage.Filenames
import SourceCoverage.Mapping.Decoding
import SourceCoverage.Options
import SourceCoverage.Record
import SourceCoverage.Session

/-!
# Emission of Coverage Data

After optimisation the counter arrays that are left tell which functions are still instrumented.
Emission puts the coverage data of the module into it as global variables: the header with the
filenames table, a record for each counter array, in module order, and a reference to the
profiling runtime. All of them may be merged with those of other modules by the linker.

Each function has one region for the time being, which covers no real source text.
-/

namespace SourceCoverage

/-- The alignment of coverage data. -/
def coverageAlignment : UInt32 := 8

/-- A record that was emitted, with the function that it is for and the variable that holds it. -/
structure EmittedRecord where
  function : String
  global : String
  record : FunctionRecord
  deriving Repr, DecidableEq

/-- What an emission added to the module. -/
structure EmissionSummary where
  header : TableHeader
  filenames : Bytes
  filenamesHash : UInt64
  records : List EmittedRecord
  /-- The global variables that are no counter arrays. -/
  skipped : List String
  deriving Repr, DecidableEq

/-- The record of a function. -/
def EmissionSummary.record? (summary : EmissionSummary) (function : String) :
    Option EmittedRecord :=
  summary.records.find? (·.function = function)

/-! ### The emitted variables -/

/-- The variable that holds the header and the filenames table. -/
def headerVariable (options : CoverageOptions) (header : TableHeader) (filenames : Bytes) :
    Variable where
  name := Symbol.coverageMapping
  value := header.toConstant filenames
  isConstant := true
  linkage := .linkOnceOdr
  sectionName := some options.objectFormat.sections.mapping
  alignment := some coverageAlignment

/-- The variable that holds the record of a function. -/
def recordVariable (options : CoverageOptions) (function : String) (record : FunctionRecord) :
    Variable where
  name := Symbol.coverageRecord function
  value := .bytes record.toBytes
  isConstant := true
  linkage := .linkOnceOdr
  visibility := .hidden
  sectionName := some options.objectFormat.sections.functions
  alignment := some coverageAlignment

/-- The variable that refers to the entry point of the profiling runtime. -/
def runtimeUserVariable : Variable where
  name := Symbol.profileRuntimeUser
  value := .address Symbol.profileRuntime
  linkage := .linkOnceOdr
  visibility := .hidden

/-- The mapping of a function whose source positions are not known: the placeholder region in the
first file of the table. -/
def placeholderMapping : Mapping := ⟨[0], [], [Region.placeholder]⟩

/-! ### Encoding with reports -/

/-- What is reported of the encoding of a mapping. -/
def Mapping.encodingEvents (mapping : Mapping) : List Event :=
  match mapping.canonical with
  | .error _ => []
  | .ok canonical =>
    [.mappingEncoded canonical.files.length canonical.expressions.length canonical.regions.length
      canonical.toBytes.length]

/-- What is reported of the encoding of a filenames table, given a way to compress. -/
def FilenameTable.encodingEventsWith (compress : Bytes → Bytes) (table : FilenameTable)
    (compressing : Bool) : List Event :=
  let encoded := table.encodeWith compress compressing
  [.filenamesEncoded table.size table.pathData.length encoded.blob.length encoded.hash]

/-- What is reported of the encoding of a filenames table with the compression of this library. -/
def FilenameTable.encodingEvents (table : FilenameTable) (compressing : Bool) : List Event :=
  table.encodingEventsWith Zlib.compress compressing

namespace Action

/-- Reports several events. -/
def reportAll {ε : Type} (events : List Event) : Action ε Unit := events.forM report

/-- Encodes a mapping and reports it. -/
def encodeMapping (mapping : Mapping) : Action CoverageError Bytes := do
  reportAll mapping.encodingEvents
  ofExcept (mapping.encode.mapError .mapping)

/-- Encodes a filenames table and reports it, given a way to compress. -/
def encodeFilenames {ε : Type} (compress : Bytes → Bytes) (table : FilenameTable)
    (compressing : Bool) : Action ε EncodedFilenames := do
  reportAll (table.encodingEventsWith compress compressing)
  return table.encodeWith compress compressing

/-! ### The steps of an emission -/

/-- The length of an encoded filenames table as its header tells it. -/
def filenamesLength (blob : Bytes) : Except CoverageError UInt32 :=
  if blob.length < UInt32.size then .ok (UInt32.ofNat blob.length)
  else .error (.mappingTooLarge Symbol.coverageMapping blob.length)

/-- Emits the header of a filenames table. -/
def emitHeader (options : CoverageOptions) (filenames : EncodedFilenames) :
    Action CoverageError TableHeader := do
  let length ← ofExcept (filenamesLength filenames.blob)
  let header := TableHeader.ofLength length
  defineVariable (headerVariable options header filenames.blob)
  report (.headerEmitted options.sourceFile length filenames.hash
    options.objectFormat.sections.mapping)
  return header

/-- Emits the record of a function. -/
def emitRecord (options : CoverageOptions) (filenamesHash : UInt64) (function : String) :
    Action CoverageError EmittedRecord := do
  let mapping ← encodeMapping placeholderMapping
  let record ← ofExcept (FunctionRecord.ofMapping ⟨function⟩ filenamesHash mapping)
  defineVariable (recordVariable options function record)
  report (.recordEmitted function record.nameHash record.functionHash record.mappingLength)
  return ⟨function, Symbol.coverageRecord function, record⟩

/-- Emits the records for the counter arrays among the given global variables. The answer is the
records and the names of the others. -/
def emitRecords (options : CoverageOptions) (filenamesHash : UInt64) :
    (globals : List String) → Action CoverageError (List EmittedRecord × List String)
  | [] => return ([], [])
  | global :: globals =>
    match Symbol.countersOwner? global with
    | none => do
      report (.notCounters global)
      let (records, skipped) ← emitRecords options filenamesHash globals
      return (records, global :: skipped)
    | some function => do
      let record ← emitRecord options filenamesHash function
      let (records, skipped) ← emitRecords options filenamesHash globals
      return (record :: records, skipped)

/-- Declares the entry point of the profiling runtime and refers to it. -/
def referToRuntime : Action CoverageError Unit := do
  attempt (·.declareFunction Symbol.profileRuntime)
  defineVariable runtimeUserVariable

/-- Emits the coverage data of the module, given a way to compress. The global variables that are
looked at are those there are once the header is defined. -/
def emitWith (compress : Bytes → Bytes) (options : CoverageOptions) :
    Action CoverageError EmissionSummary := do
  let filenames ← encodeFilenames compress (.single options.sourceFile) options.compressFilenames
  let header ← emitHeader options filenames
  let globals := (← getModule).globalNames
  let (records, skipped) ← emitRecords options filenames.hash globals
  referToRuntime
  report (.coverageEmitted records.length skipped.length options.objectFormat.text)
  return ⟨header, filenames.blob, filenames.hash, records, skipped⟩

/-- Emits the coverage data of the module, with the compression of this library. -/
def emit (options : CoverageOptions) : Action CoverageError EmissionSummary :=
  emitWith Zlib.compress options

end Action

end SourceCoverage
