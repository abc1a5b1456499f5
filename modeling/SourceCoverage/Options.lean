/-!
# Options

What coverage is to be produced and how: the source file, the way counters are updated and
filenames are stored, and the object file format, which decides the names of the sections that
coverage tools look for.
-/

namespace SourceCoverage

/-- The format of the object file that a module is compiled to. -/
inductive ObjectFormat where
  | elf
  | macho
  | coff
  deriving Repr, DecidableEq

/-- The sections of coverage data: one for the header with the filenames table, one for function
records. -/
structure SectionNames where
  mapping : String
  functions : String
  deriving Repr, DecidableEq

namespace ObjectFormat

/-- Where nothing else is said, the format is ELF. -/
instance : Inhabited ObjectFormat := ⟨elf⟩

/-- Every format. -/
def all : List ObjectFormat := [elf, macho, coff]

/-- The text of a format. -/
def text : ObjectFormat → String
  | elf => "elf"
  | macho => "macho"
  | coff => "coff"

/-- The format of a text. -/
def ofText? (text : String) : Option ObjectFormat := all.find? (·.text = text)

/-- The section names of a format. -/
def sections : ObjectFormat → SectionNames
  | elf => ⟨"__llvm_covmap", "__llvm_covfun"⟩
  | macho => ⟨"__LLVM_COV,__llvm_covmap", "__LLVM_COV,__llvm_covfun"⟩
  | coff => ⟨".lcovmap$M", ".lcovfun$M"⟩

end ObjectFormat

/-- The options of coverage. -/
structure CoverageOptions where
  /-- The file that every region is attributed to. -/
  sourceFile : String
  /-- Whether counters are to be updated atomically. -/
  atomicCounters : Bool := true
  /-- Whether the filenames table is to be compressed. -/
  compressFilenames : Bool := true
  objectFormat : ObjectFormat := .elf
  deriving Repr, DecidableEq

/-- Everything that a run needs besides the module: the text of the pass pipeline, and the
coverage options if coverage is wanted. -/
structure RunConfig where
  passes : String
  coverage : Option CoverageOptions := none
  deriving Repr, DecidableEq

/-- Whether coverage is wanted. -/
def RunConfig.coverageEnabled (config : RunConfig) : Bool := config.coverage.isSome

end SourceCoverage
