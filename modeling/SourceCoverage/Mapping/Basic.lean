import SourceCoverage.Error

/-!
# Coverage Mappings

The mapping of a function attributes regions of source text to *counters*. A counter is the
constant zero, a physical counter that the program increments as it runs, or an expression over
other counters. Expressions stand in a table and refer to each other by position; nothing keeps
them from sharing operands or from forming cycles. A mapping numbers the files it speaks of, and
its file list gives the position of each in the filenames table of the module.
-/

namespace SourceCoverage

/-- What a region's execution count is read from. -/
inductive Counter where
  | zero
  /-- An element of the function's counter array. -/
  | physical (id : UInt32)
  /-- An element of the function's expression table. -/
  | expression (id : UInt32)
  deriving Repr, DecidableEq

namespace Counter

/-- Where nothing else is said, a counter is zero. -/
instance : Inhabited Counter := ⟨zero⟩

/-- The position that a counter refers to, and zero for the zero counter. -/
def id : Counter → UInt32
  | zero => 0
  | physical id => id
  | expression id => id

/-- Whether this is the zero counter. -/
def isZero : Counter → Bool
  | zero => true
  | _ => false

end Counter

/-- The operator of an expression. -/
inductive Operator where
  | subtract
  | add
  deriving Repr, DecidableEq

/-- The sum or difference of two counters. -/
structure Expression where
  operator : Operator
  lhs : Counter
  rhs : Counter
  deriving Repr, DecidableEq

/-- The expression with its operands replaced. -/
def Expression.mapOperands (f : Counter → Counter) (e : Expression) : Expression :=
  { e with lhs := f e.lhs, rhs := f e.rhs }

/-- What a region means to the reader of a mapping. -/
inductive RegionKind where
  /-- Code that ran `count` times. -/
  | code (count : Counter)
  /-- Text that stands in another file, such as the expansion of a macro. -/
  | expansion (file : UInt32)
  /-- Text that is never compiled. -/
  | skipped
  /-- The space between statements, which has the count of what surrounds it. -/
  | gap (count : Counter)
  /-- A condition that held and failed so many times. -/
  | branch (whenTrue whenFalse : Counter)
  deriving Repr, DecidableEq

namespace RegionKind

/-- The counters that a region refers to. -/
def counters : RegionKind → List Counter
  | code count => [count]
  | gap count => [count]
  | branch whenTrue whenFalse => [whenTrue, whenFalse]
  | expansion _ => []
  | skipped => []

/-- The kind with its counters replaced. -/
def mapCounters (f : Counter → Counter) : RegionKind → RegionKind
  | code count => code (f count)
  | gap count => gap (f count)
  | branch whenTrue whenFalse => branch (f whenTrue) (f whenFalse)
  | expansion file => expansion file
  | skipped => skipped

@[simp] theorem counters_mapCounters (f : Counter → Counter) (kind : RegionKind) :
    (kind.mapCounters f).counters = kind.counters.map f := by
  cases kind <;> rfl

end RegionKind

/-- A stretch of source text. Lines and columns count from one, and the end column is the last
one that belongs to it. -/
structure Span where
  lineStart : UInt32
  columnStart : UInt32
  lineEnd : UInt32
  columnEnd : UInt32
  deriving Repr, DecidableEq

/-- A stretch of one of the mapping's files, and what it means. -/
structure Region where
  kind : RegionKind
  file : UInt32
  span : Span
  deriving Repr, DecidableEq

namespace Region

/-- The region with its counters replaced. -/
def mapCounters (f : Counter → Counter) (region : Region) : Region :=
  { region with kind := region.kind.mapCounters f }

/-- The order of regions in a mapping: by file, then by where they start. -/
def le (r s : Region) : Bool :=
  r.file < s.file || r.file == s.file &&
    (r.span.lineStart < s.span.lineStart || r.span.lineStart == s.span.lineStart &&
      r.span.columnStart ≤ s.span.columnStart)

/-- The one region of a function whose body counter 0 counts, as long as source positions are
not known: line 1, columns 1 to 10. -/
def placeholder : Region := ⟨.code (.physical 0), 0, ⟨1, 1, 1, 10⟩⟩

end Region

/-- The coverage mapping of a function: for each of its files the position in the filenames
table, its expressions, and its regions. -/
structure Mapping where
  files : List UInt32
  expressions : List Expression
  regions : List Region
  deriving Repr, DecidableEq

/-- The counters that the regions of a mapping refer to, in the order of the regions. -/
def Mapping.regionCounters (mapping : Mapping) : List Counter :=
  mapping.regions.flatMap (·.kind.counters)

end SourceCoverage
