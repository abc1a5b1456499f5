import SourceCoverage.Pipeline.DeadSymbols
import SourceCoverage.Pipeline.Lowering
import SourceCoverage.Pipeline.Parsing
import SourceCoverage.Pipeline.Verification

/-!
# Running Pipelines

The passes of a pipeline run one after another over a module, and a failure ends the run. Each
run starts without analyses at hand. A pass that changed the module makes those at hand void.
-/

namespace SourceCoverage

namespace PassAction

/-- What a pass does to the module. An optimising pass is the two deleting passes in a row. -/
def perform : Pass → PassAction Change
  | .lowerIncrements lowering => lowerIncrements lowering
  | .removeDeadSymbols => removeDeadSymbols
  | .stripDeadPrototypes => stripDeadPrototypes
  | .optimize .O0 => return .unchanged
  | .optimize _ => do
    settle (← removeDeadSymbols)
    stripDeadPrototypes
  | .verify => do
    verify
    return .unchanged
  | .noOp => return .unchanged

/-- Runs a pass. -/
def runPass (pass : Pass) : PassAction Unit := do
  report (.runningPass pass.text (← getModule).name)
  withAnalyses (·.enterPass)
  settle (← perform pass)

/-- Runs passes one after another. -/
def runPasses (passes : List Pass) : PassAction Unit := passes.forM runPass

end PassAction

namespace Pipeline

/-- The pipeline of a text, with a lowering pass in front of it if one is asked for. -/
def build (lowering : Option Lowering) (text : String) : Except PipelineError Pipeline := do
  let pipeline ← parse text
  return ⟨(lowering.map Pass.lowerIncrements).toList ++ pipeline.passes⟩

/-- Runs a pipeline over the module of a session, and keeps what it counted, even of a run that
fails. -/
def run (pipeline : Pipeline) : Action PipelineError Unit := fun s =>
  let finish (state : PassState) : Session :=
    { s with module := state.module, lastRun := some state.analyses.stats, log := state.log }
  match PassAction.runPasses pipeline.passes { module := s.module, log := s.log } with
  | .ok () state => .ok () (finish state)
  | .error e state => .error e (finish state)

end Pipeline

end SourceCoverage
