import SourceCoverage.Instrumentation
import SourceCoverage.Run

/-!
# Tasks

What can be done to a module is a *task*: an operation by which modules are constructed, a variable
that is given an owner, or a whole run, which may compress its filenames table in any way. A task
ends somewhere, be it that it succeeds or not, and the next one goes on from there.

Other vocabularies are parts of this one. A *building step* is an operation of a program under
instrumentation, and a *stage* is a building step or a run. Sequences of building steps, operations
and stages are sequences of tasks, so that there is one way to perform them, and one induction.

## Main results

* `performAll_append`: tasks go on where others have ended.
* `performAll_keeps`: what each task keeps is kept by all of them.
-/

namespace SourceCoverage

/-! ### Operations -/

/-- A step of building a program under instrumentation. -/
inductive BuildStep where
  | addFunction (name : String) (linkage : Linkage)
  | declareFunction (name : String)
  | addCall (caller callee : String)
  | instrument (function : String) (count : UInt32)
  deriving Repr, DecidableEq

/-- The operation of a building step. -/
def BuildStep.action : BuildStep → Action CoverageError Unit
  | addFunction name linkage => Action.change (·.addFunction name linkage)
  | declareFunction name => Action.attempt (·.declareFunction name)
  | addCall caller callee => Action.attempt (·.addCall caller callee)
  | instrument function count => do
    let _ ← Action.instrument function count

namespace Action

/-- Inserts increments through one cursor, each by an intrinsic, and goes on when one is refused.
The answer tells for each of them why it was refused, if it was. -/
def insertAll (cursor : BodyCursor) :
    List (String × Increment) → Action CoverageError (List (Option CoverageError))
  | [] => return []
  | (intrinsic, increment) :: calls => fun s =>
    match insert cursor intrinsic increment s with
    | .ok cursor s => ((none :: ·) <$> insertAll cursor calls) s
    | .error e s => ((some e :: ·) <$> insertAll cursor calls) s

/-- Inserts increments through one cursor, whatever the answers are. -/
def insertEach (cursor : BodyCursor) (calls : List (String × Increment)) :
    Action CoverageError Unit := do
  let _ ← insertAll cursor calls

end Action

/-- An operation by which a module is constructed: a step of a program, or one of those that
programs are instrumented by. -/
inductive Operation where
  | build (step : BuildStep)
  | declareIntrinsic (name : String)
  | defineVariable (v : Variable)
  | prepare (function : String) (count : UInt32)
  /-- Insertions at the start of a function's body, behind one another. -/
  | insert (function : String) (calls : List (String × Increment))

/-- What an operation does. -/
def Operation.action : Operation → Action CoverageError Unit
  | build step => step.action
  | declareIntrinsic name => Action.attempt (·.declareIntrinsic name)
  | defineVariable v => Action.defineVariable v
  | prepare function count => do
    let _ ← Action.prepare function count
  | insert function calls => do
    let cursor ← Action.entryCursor function
    Action.insertEach cursor calls

/-! ### Tasks -/

/-- A task on a module: an operation, a variable that is given an owner, or a run with a way to
compress its filenames table. -/
inductive Task where
  | operation (operation : Operation)
  | putOwned (v : Variable) (owner : String)
  | run (compress : Bytes → Bytes) (config : RunConfig)

namespace Task

/-- The session after a task, whether it succeeded or not. -/
def perform : Task → Session → Session
  | operation op, s => endOf (op.action s)
  | putOwned v owner, s => { s with module := s.module.putOwned v owner }
  | run compress config, s => endOf (Action.runWith compress .full config s)

/-- Whether a task succeeds. -/
def Succeeds : Task → Session → Prop
  | operation op, s => ∃ s', op.action s = .ok () s'
  | putOwned _ _, _ => True
  | run compress config, s => ∃ report s', Action.runWith compress .full config s = .ok report s'

end Task

/-- The session after several tasks. -/
def performAll (tasks : List Task) (s : Session) : Session :=
  tasks.foldl (fun s task => task.perform s) s

/-- Tasks go on where others have ended. -/
theorem performAll_append (earlier later : List Task) (s : Session) :
    performAll (earlier ++ later) s = performAll later (performAll earlier s) :=
  List.foldl_append

/-- **What each of several tasks keeps is kept by all of them.** -/
theorem performAll_keeps {P : Session → Prop} {tasks : List Task} {s : Session}
    (htasks : ∀ task ∈ tasks, ∀ s, P s → P (task.perform s)) (hs : P s) :
    P (performAll tasks s) := by
  induction tasks generalizing s with
  | nil => exact hs
  | cons task tasks ih =>
      obtain ⟨htask, hrest⟩ := List.forall_mem_cons.1 htasks
      exact ih hrest (htask s hs)

/-! ### Parts of the vocabulary -/

/-- The session after an operation. -/
def Operation.perform (operation : Operation) (s : Session) : Session :=
  (Task.operation operation).perform s

/-- The module that a sequence of operations constructs, with those that fail passed over. -/
def construct (name : String) (operations : List Operation) : Module :=
  (performAll (operations.map .operation) (.start name)).module

namespace BuildStep

/-- A building step as a task. -/
def task (step : BuildStep) : Task := .operation (.build step)

/-- Whether a building step succeeds. -/
def Succeeds (step : BuildStep) (s : Session) : Prop := step.task.Succeeds s

/-- The session after a building step. -/
def perform (step : BuildStep) (s : Session) : Session := step.task.perform s

/-- A building step succeeds if its operation does. -/
theorem succeeds_iff {step : BuildStep} {s : Session} :
    step.Succeeds s ↔ ∃ s', step.action s = .ok () s' := Iff.rfl

/-- A building step ends where its operation does. -/
theorem perform_eq (step : BuildStep) (s : Session) : step.perform s = endOf (step.action s) := rfl

end BuildStep

/-- The session after a sequence of building steps. -/
def build (steps : List BuildStep) (s : Session) : Session := performAll (steps.map (·.task)) s

/-- A stage of the work on a module: a building step, or a run. -/
inductive Stage where
  | build (step : BuildStep)
  | run (compress : Bytes → Bytes) (config : RunConfig)

namespace Stage

/-- A stage as a task. -/
def task : Stage → Task
  | build step => step.task
  | run compress config => .run compress config

/-- Whether a stage succeeds. -/
def Succeeds (stage : Stage) (s : Session) : Prop := stage.task.Succeeds s

/-- The session after a stage. -/
def perform (stage : Stage) (s : Session) : Session := stage.task.perform s

/-- A stage that is a run ends where the run does. -/
theorem perform_run (compress : Bytes → Bytes) (config : RunConfig) (s : Session) :
    (run compress config).perform s = endOf (Action.runWith compress .full config s) := rfl

/-- If the run succeeds, that is the session with which it does. -/
theorem perform_run_of_ok {compress : Bytes → Bytes} {config : RunConfig} {report : RunReport}
    {s s' : Session} (h : Action.runWith compress .full config s = .ok report s') :
    (run compress config).perform s = s' := by
  rw [perform_run, h]
  rfl

end Stage

/-- The session after some work. -/
def work (stages : List Stage) (s : Session) : Session := performAll (stages.map (·.task)) s

/-- The work goes on where it was left. -/
theorem work_append (earlier later : List Stage) (s : Session) :
    work (earlier ++ later) s = work later (work earlier s) := by
  rw [work, List.map_append, performAll_append]
  rfl

end SourceCoverage
