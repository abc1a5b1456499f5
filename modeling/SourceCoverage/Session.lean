import SourceCoverage.Log
import SourceCoverage.Module.Building

/-!
# Sessions

A session is the work on one module: the module as it stands, what the latest run of a pass
pipeline counted, and the log. The operations that report what they do act on a session. An
operation that fails leaves what it had done until then, and the log tells how far it came.
-/

namespace SourceCoverage

/-- What a run of a pass pipeline counts. -/
structure RunStats where
  passesRun : Nat := 0
  analysesComputed : Nat := 0
  cacheHits : Nat := 0
  invalidations : Nat := 0
  deriving Repr, DecidableEq

/-- The work on one module. -/
structure Session where
  module : Module
  lastRun : Option RunStats := none
  log : Array Event := #[]

/-- An operation on a session. -/
abbrev Action (ε α : Type) := EStateM ε Session α

namespace Session

/-- A session on a new module. -/
def start (name : String) : Session := { module := Module.empty name }

/-- The session with one more event in its log. -/
def record (s : Session) (event : Event) : Session := { s with log := s.log.push event }

end Session

/-- The state in which an operation ends, in success or in failure. -/
def endOf {ε σ α : Type} : EStateM.Result ε σ α → σ
  | .ok _ s => s
  | .error _ s => s

/-! ### One operation after another -/

section Bind

variable {ε σ α β : Type} {operation : EStateM ε σ α} {s s' : σ}

/-- After a success, the work goes on with the answer from where the operation ended. -/
theorem bind_of_ok {a : α} (h : operation s = .ok a s') (next : α → EStateM ε σ β) :
    (operation >>= next) s = next a s' := by
  simp only [bind, EStateM.bind, h]

/-- A failure is the end of the work. -/
theorem bind_of_error {e : ε} (h : operation s = .error e s') (next : α → EStateM ε σ β) :
    (operation >>= next) s = .error e s' := by
  simp only [bind, EStateM.bind, h]

/-- Operations in a row succeed exactly when each of them does, from where the one before it
ended. -/
theorem bind_eq_ok_iff {next : α → EStateM ε σ β} {b : β} : (operation >>= next) s = .ok b s' ↔
    ∃ a between, operation s = .ok a between ∧ next a between = .ok b s' := by
  cases hrun : operation s with
  | ok a between =>
    rw [bind_of_ok hrun]
    constructor
    · exact fun h => ⟨a, between, rfl, h⟩
    · rintro ⟨_, _, h, h'⟩
      obtain ⟨rfl, rfl⟩ := EStateM.Result.ok.inj h
      exact h'
  | error e between =>
    rw [bind_of_error hrun]
    constructor
    · exact nofun
    · rintro ⟨_, _, h, -⟩
      cases h

end Bind

namespace Action

/-- Reports an event. -/
def report {ε : Type} (event : Event) : Action ε Unit := modify (·.record event)

/-- The module as it stands. -/
def getModule {ε : Type} : Action ε Module := return (← get).module

/-- The module can always be had, and stays as it is. -/
theorem getModule_bind {ε α : Type} (next : Module → Action ε α) (s : Session) :
    (getModule >>= next) s = next s.module s := rfl

/-- Changes the module, in a way that cannot fail. -/
def change {ε : Type} (f : Module → Module) : Action ε Unit :=
  modify fun s => { s with module := f s.module }

/-- Changes the module, unless it refuses. -/
def attempt {ε : Type} (f : Module → Except ε Module) : Action ε Unit := fun s =>
  match f s.module with
  | .ok m => .ok () { s with module := m }
  | .error e => .error e s

/-- The result of a computation that does not touch the session. -/
def ofExcept {ε α : Type} : Except ε α → Action ε α
  | .ok a => pure a
  | .error e => throw e

/-- A computation that succeeded hands on its result. -/
theorem ofExcept_ok_bind {ε α β : Type} (a : α) (next : α → Action ε β) (s : Session) :
    (ofExcept (.ok a) >>= next) s = next a s := rfl

/-- Defines a variable, and reports it unless the module refuses. -/
def defineVariable (v : Variable) : Action CoverageError Unit := fun s =>
  match s.module.defineVariable v with
  | .ok m => .ok () { (s.record (.definingGlobal s.module.name v.name)) with module := m }
  | .error e => .error e s

end Action

end SourceCoverage
