import SourceCoverage.Emission
import SourceCoverage.Pipeline.Execution

/-!
# Whole Runs

A run takes a module through the stages of compilation with coverage, in an order that is fixed:
lowering of increments is negotiated, the text of the pass pipeline is read, the passes run with
lowering in front of them, and coverage data is emitted for what is left. Without coverage the
first and the last stage fall away. Nothing touches the module before the text has been read.

How the filenames table is compressed is up to whoever runs: `runWith` is given a way to compress,
and `run` is the run that is executed, with the compression of this library.
-/

namespace SourceCoverage

/-- What the environment of a run is able to do. -/
structure Capabilities where
  /-- Pointers have no type, so that name variables can be passed as they are. -/
  opaquePointers : Bool
  /-- Counter updates can be made atomic. -/
  atomicLowering : Bool
  /-- Increments can be lowered at all. -/
  loweringPass : Bool
  deriving Repr, DecidableEq

namespace Capabilities

/-- What this library is able to do by itself. -/
def full : Capabilities := ⟨true, true, true⟩

/-- The text of capabilities. -/
def text (c : Capabilities) : String :=
  s!"opaque_pointers={c.opaquePointers} atomic_lowering={c.atomicLowering} "
    ++ s!"lowering_pass={c.loweringPass}"

end Capabilities

/-- The stages of a run. -/
inductive RunState where
  | init
  | loweringApplied
  | pipelineParsed
  | pipelineRun
  | mappingEmitted
  | done
  deriving Repr, DecidableEq

/-- The text of a stage. -/
def RunState.text : RunState → String
  | init => "init"
  | loweringApplied => "lowering-applied"
  | pipelineParsed => "pipeline-parsed"
  | pipelineRun => "pipeline-run"
  | mappingEmitted => "mapping-emitted"
  | done => "done"

/-- What a run that succeeded reports: the stages it went through, and with coverage how
increments were lowered and what was emitted. -/
structure RunReport where
  states : List RunState
  lowering : Option Lowering
  emission : Option EmissionSummary
  deriving Repr, DecidableEq

namespace Action

/-- An operation whose errors are counted among those of whole runs. -/
def within {ε ε' α : Type} (f : ε → ε') (action : Action ε α) : Action ε' α := fun s =>
  match action s with
  | .ok a s => .ok a s
  | .error e s => .error (f e) s

/-- The way to lower increments that comes closest to what the options ask for. -/
def negotiateLowering (capabilities : Capabilities) (options : CoverageOptions) :
    Action Error Lowering := do
  if ¬ capabilities.loweringPass then
    throw (.coverage (.host
      ("coverage needs increment lowering, host has " ++ capabilities.text)))
  let atomic := options.atomicCounters && capabilities.atomicLowering
  if options.atomicCounters && !atomic then report .atomicsUnavailable
  return ⟨atomic⟩

/-- Goes from one stage to the next one. -/
def enter {ε : Type} (states : List RunState) (next : RunState) : Action ε (List RunState) := do
  if let some previous := states.getLast? then
    report (.stateEntered previous.text next.text)
  return states ++ [next]

/-- Takes the module of the session through a whole run, given a way to compress. -/
def runWith (compress : Bytes → Bytes) (capabilities : Capabilities) (config : RunConfig) :
    Action Error RunReport := do
  report (.runBegun config.passes config.coverageEnabled)
  let states := [RunState.init]
  let (lowering, states) ←
    match config.coverage with
    | some options => do
      let lowering ← negotiateLowering capabilities options
      pure (some lowering, ← enter states .loweringApplied)
    | none => pure (none, states)
  let pipeline ← ofExcept ((Pipeline.build lowering config.passes).mapError .pipeline)
  let states ← enter states .pipelineParsed
  within .pipeline pipeline.run
  let states ← enter states .pipelineRun
  let (emission, states) ←
    match config.coverage with
    | some options => do
      let summary ← within .coverage (emitWith compress options)
      pure (some summary, ← enter states .mappingEmitted)
    | none => pure (none, states)
  let states ← enter states .done
  return ⟨states, lowering, emission⟩

/-- Takes the module of the session through a whole run, with the compression of this library. -/
def run (capabilities : Capabilities) (config : RunConfig) : Action Error RunReport :=
  runWith Zlib.compress capabilities config

end Action

end SourceCoverage
