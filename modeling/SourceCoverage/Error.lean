/-!
# Errors

Each stage has an error type of its own that says what went wrong; `Error` joins those that a
whole run can end with. The wording is kept apart from the cause: `message` gives the text of
each error, and nothing else in the library builds such a text.
-/

namespace SourceCoverage

/-! ### Mapping data -/

/-- Why the span of a region cannot be represented. -/
inductive SpanFault where
  /-- Lines and columns count from one. -/
  | zeroCoordinate
  /-- The top bit of an end column marks gap regions. -/
  | markerBit
  /-- The end lies before the start. -/
  | reversed
  deriving Repr, DecidableEq

/-- The wording of a span's fault. -/
def SpanFault.reason : SpanFault → String
  | .zeroCoordinate => "coordinates are 1-based"
  | .markerBit => "end column overlaps the gap-region marker bit"
  | .reversed => "region ends before it starts"

/-- What is wrong with bytes that should hold mapping data, a filenames table or a record. -/
inductive Defect where
  | truncatedValue
  | valueTooWide
  | pastEnd
  | notInflatable
  | afterTable
  | notUtf8
  | filenameCount
  | expressionCount
  | lineOverflow
  | afterRegions
  | counterTooWide
  | missingExpression
  | expansionTooWide
  | unsupportedRegion
  | shortHeader
  | shortRecord
  | recordLength
  deriving Repr, DecidableEq

/-- The wording of a defect. -/
def Defect.reason : Defect → String
  | .truncatedValue => "truncated LEB128 value"
  | .valueTooWide => "value does not fit in 32 bits"
  | .pastEnd => "length runs past the end of the data"
  | .notInflatable => "filenames failed to decompress"
  | .afterTable => "trailing bytes after filenames table"
  | .notUtf8 => "filename is not UTF-8"
  | .filenameCount => "filename count does not match the table"
  | .expressionCount => "expression count exceeds the data"
  | .lineOverflow => "line number overflows"
  | .afterRegions => "trailing bytes after mapping regions"
  | .counterTooWide => "counter id too large"
  | .missingExpression => "counter refers to a missing expression"
  | .expansionTooWide => "expanded file id too large"
  | .unsupportedRegion => "unsupported region kind"
  | .shortHeader => "covmap header is truncated"
  | .shortRecord => "covfun record is truncated"
  | .recordLength => "mapping length does not match the record size"

/-- A mapping that cannot be encoded, or bytes that cannot be decoded. -/
inductive MappingError where
  /-- A counter refers to an expression beyond the `count` that exist. -/
  | unknownExpression (id : UInt32) (count : Nat)
  /-- A region lies in a file beyond the `count` of the mapping. -/
  | fileOutOfRange (file : UInt32) (count : Nat)
  /-- A region expands a file beyond the `count` of the mapping. -/
  | expansionOutOfRange (file : UInt32) (count : Nat)
  /-- The span of a region is not representable. -/
  | invalidSpan (lineStart columnStart lineEnd columnEnd : UInt32) (fault : SpanFault)
  /-- The bytes have a defect, noticed at `offset`. -/
  | malformed (offset : Nat) (defect : Defect)
  deriving Repr, DecidableEq

/-- The text of an error in mapping data. -/
def MappingError.message : MappingError → String
  | .unknownExpression id count =>
    s!"counter refers to expression #{id}, but only {count} expressions exist"
  | .fileOutOfRange file count =>
    s!"region uses file id {file}, but the virtual file mapping has {count} entries"
  | .expansionOutOfRange file count =>
    s!"expansion region expands file id {file}, but the virtual file mapping has {count} entries"
  | .invalidSpan lineStart columnStart lineEnd columnEnd fault =>
    s!"invalid region span {lineStart}:{columnStart}-{lineEnd}:{columnEnd}: " ++ fault.reason
  | .malformed offset defect =>
    s!"malformed mapping data at byte {offset}: " ++ defect.reason

/-! ### Instrumentation and emission -/

/-- A failure to instrument a function or to emit coverage data. -/
inductive CoverageError where
  | missingIntrinsic (name : String)
  | unknownFunction (name : String)
  /-- A data object refers to a symbol that the module does not have. -/
  | unknownSymbol (name : String)
  /-- The mapping of a function is longer than its record's length field can tell. -/
  | mappingTooLarge (function : String) (length : Nat)
  | compression (message : String)
  | mapping (error : MappingError)
  /-- The module refuses an operation. -/
  | host (message : String)
  deriving Repr, DecidableEq

/-- The text of a failure to instrument or to emit. -/
def CoverageError.message : CoverageError → String
  | .missingIntrinsic name => s!"intrinsic `{name}` is not available in this LLVM"
  | .unknownFunction name => s!"no function named `{name}` in the module"
  | .unknownSymbol name => s!"symbol `{name}` referenced from a data object does not exist"
  | .mappingTooLarge function length =>
    s!"mapping data for `{function}` is {length} bytes, larger than a record can describe"
  | .compression message => s!"failed to compress the filenames table: {message}"
  | .mapping error => error.message
  | .host message => s!"host rejected the operation: {message}"

/-! ### Pass pipelines -/

/-- A pipeline that cannot be built from its text, or that fails while it runs. -/
inductive PipelineError where
  | unknownPass (name : String)
  /-- The text does not have the form of a pipeline. -/
  | malformed (text reason : String)
  | invalidParams (pass params : String)
  | verification (message : String)
  | backend (message : String)
  deriving Repr, DecidableEq

/-- The text of a pipeline error. -/
def PipelineError.message : PipelineError → String
  | .unknownPass name => s!"unknown pass name '{name}'"
  | .malformed text reason => s!"invalid pipeline '{text}': {reason}"
  | .invalidParams pass params => s!"invalid parameters '{params}' for pass '{pass}'"
  | .verification message => s!"module verification failed: {message}"
  | .backend message => s!"pass pipeline failed: {message}"

/-! ### Configuration -/

/-- A configuration that cannot be had. -/
inductive ConfigError where
  /-- The file cannot be read as text, for the reason given. -/
  | io (path reason : String)
  /-- The text is no document, or not one of a configuration. -/
  | parse
  /-- The configuration asks for something impossible. -/
  | invalid (message : String)
  deriving Repr, DecidableEq

/-- The text of a configuration error. -/
def ConfigError.message : ConfigError → String
  | .io path reason => s!"failed to read config file {path}: {reason}"
  | .parse => "failed to parse config"
  | .invalid message => s!"invalid config: {message}"

/-! ### Whole runs -/

/-- What a whole run can end with instead of a report. -/
inductive Error where
  | pipeline (error : PipelineError)
  | coverage (error : CoverageError)
  | config (error : ConfigError)
  deriving Repr, DecidableEq

namespace Error

/-- The text of an error, which is that of its cause. -/
def message : Error → String
  | .pipeline error => error.message
  | .coverage error => error.message
  | .config error => error.message

/-- Whether the pipeline text itself is at fault, so that the same run can never succeed. -/
def isConstruction : Error → Bool
  | .pipeline (.unknownPass _) => true
  | .pipeline (.malformed _ _) => true
  | .pipeline (.invalidParams _ _) => true
  | _ => false

end Error

end SourceCoverage
