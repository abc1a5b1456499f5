/-!
# Pass Pipelines

A pipeline is a sequence of passes over a module. Pipelines have a textual form: the names of the
passes, with parameters in angle brackets, separated by commas. This module holds passes and
their text; the reading of texts is in `SourceCoverage.Pipeline.Parsing`.
-/

namespace SourceCoverage

/-- How increments are lowered. -/
structure Lowering where
  /-- Whether a counter update cannot be interrupted by another one. -/
  atomic : Bool := true
  deriving Repr, DecidableEq

/-- A level of optimisation. -/
inductive OptLevel where
  | O0
  | O1
  | O2
  | O3
  | Os
  | Oz
  deriving Repr, DecidableEq

namespace OptLevel

/-- The text of a level. -/
def text : OptLevel → String
  | O0 => "O0"
  | O1 => "O1"
  | O2 => "O2"
  | O3 => "O3"
  | Os => "Os"
  | Oz => "Oz"

/-- Every level. -/
def all : List OptLevel := [O0, O1, O2, O3, Os, Oz]

/-- The level of a text. -/
def ofText? (text : String) : Option OptLevel := all.find? (·.text = text)

end OptLevel

/-- A pass over a module. -/
inductive Pass where
  /-- Replaces increments by updates of counter arrays. -/
  | lowerIncrements (lowering : Lowering)
  /-- Deletes the definitions that nothing alive refers to. -/
  | removeDeadSymbols
  /-- Deletes the declarations that nothing refers to. -/
  | stripDeadPrototypes
  /-- Nothing at level `O0`, and the two passes above at every other level. -/
  | optimize (level : OptLevel)
  /-- Checks that the module is well formed. -/
  | verify
  | noOp
  deriving Repr, DecidableEq

/-- The text of a pass. -/
def Pass.text : Pass → String
  | lowerIncrements ⟨true⟩ => "instrprof<atomic>"
  | lowerIncrements ⟨false⟩ => "instrprof"
  | removeDeadSymbols => "globaldce"
  | stripDeadPrototypes => "strip-dead-prototypes"
  | optimize level => "default<" ++ level.text ++ ">"
  | verify => "verify"
  | noOp => "no-op-module"

/-- A sequence of passes. -/
structure Pipeline where
  passes : List Pass := []
  deriving Repr, DecidableEq

/-- The text of a pipeline. -/
def Pipeline.text (pipeline : Pipeline) : String := ",".intercalate (pipeline.passes.map (·.text))

end SourceCoverage
