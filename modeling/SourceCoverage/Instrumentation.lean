import SourceCoverage.Identity
import SourceCoverage.Session

/-!
# Instrumentation

Instrumenting a function takes two steps while the module is still being built. The function is
*prepared*: the increment intrinsic is declared, and a private variable defined that holds the
function's name. Then an increment is inserted for every place to be counted. All increments of a
function carry the same identity, so that lowering can give them one counter array.
-/

namespace SourceCoverage

/-- What it takes to insert increments into a function. -/
structure Instrumentation where
  identity : FunctionIdentity
  counterCount : UInt32
  deriving Repr, DecidableEq

namespace Instrumentation

/-- The variable that holds the name of the function. -/
def nameVariable (i : Instrumentation) : String := Symbol.nameVariable i.identity.name

/-- The increment of one of the function's counters. -/
def increment (i : Instrumentation) (index : UInt32) : Increment :=
  ⟨i.nameVariable, i.identity.structuralHash, i.counterCount, index⟩

end Instrumentation

/-- The variable that holds the name of a function: its bytes, without an end mark. -/
def nameVariable (function : String) : Variable where
  name := Symbol.nameVariable function
  value := .bytes (utf8 function)
  isConstant := true
  linkage := .privateLinkage

namespace Action

/-- Declares the increment intrinsic. -/
def declareIncrement : Action CoverageError Unit :=
  attempt (·.declareIntrinsic Symbol.incrementIntrinsic)

/-- Defines the variable that holds the name of a function. -/
def defineName (function : String) : Action CoverageError Unit :=
  defineVariable (nameVariable function)

/-- Makes the module ready for increments of a function's counters. -/
def prepare (function : String) (counterCount : UInt32) :
    Action CoverageError Instrumentation := do
  if ¬ (← getModule).hasFunction function then throw (.unknownFunction function)
  declareIncrement
  defineName function
  return ⟨⟨function⟩, counterCount⟩

/-- Inserts an increment at a cursor, and moves the cursor behind it. -/
def insert (cursor : BodyCursor) (intrinsic : String) (increment : Increment) :
    Action CoverageError BodyCursor := fun s =>
  match s.module.insertIncrement cursor intrinsic increment with
  | .ok (m, cursor) => .ok cursor { s with module := m }
  | .error e => .error e s

/-- Inserts the increment of one counter of a prepared function at a cursor. -/
def insertCounter (i : Instrumentation) (cursor : BodyCursor) (index : UInt32) :
    Action CoverageError BodyCursor := do
  report (.insertingIncrement i.identity.name i.identity.structuralHash i.counterCount index)
  insert cursor Symbol.incrementIntrinsic (i.increment index)

/-- Inserts the increments of several counters, one behind the other. -/
def insertCounters (i : Instrumentation) (cursor : BodyCursor) (indices : List Nat) :
    Action CoverageError BodyCursor :=
  indices.foldlM (fun cursor index => insertCounter i cursor (UInt32.ofNat index)) cursor

/-- The start of a function's body. -/
def entryCursor (function : String) : Action CoverageError BodyCursor := do
  match (← getModule).entryCursor? function with
  | some cursor => return cursor
  | none => throw (.unknownFunction function)

/-- Prepares a function and increments each of its counters once, in order, before everything
else that its body does. -/
def instrument (function : String) (counterCount : UInt32) :
    Action CoverageError Instrumentation := do
  let i ← prepare function counterCount
  let cursor ← entryCursor function
  let _ ← insertCounters i cursor (List.range counterCount.toNat)
  return i

end Action

end SourceCoverage
