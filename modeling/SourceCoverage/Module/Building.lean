import SourceCoverage.Error
import SourceCoverage.Symbol
import SourceCoverage.Module.Basic

/-!
# Building Modules

The operations that add to a module. Each gives the new module, or the reason why the module
refuses; a refusal leaves nothing half done.
-/

namespace SourceCoverage

/-- The list with its first element that satisfies `p` replaced by its image. -/
def updateFirst {α : Type} (p : α → Bool) (f : α → α) : List α → List α
  | [] => []
  | x :: xs => if p x then f x :: xs else x :: updateFirst p f xs

/-- The body with a call in front of its first return, or at its end if it never returns. -/
def insertBeforeReturn (call : Instruction) : List Instruction → List Instruction
  | [] => [call]
  | .ret :: rest => call :: .ret :: rest
  | i :: rest => i :: insertBeforeReturn call rest

namespace Module

/-! ### Functions -/

/-- Defines a function that returns at once. A function of that name that is there already takes
the linkage, and the body only if it has none. -/
def addFunction (m : Module) (name : String) (linkage : Linkage) : Module :=
  if m.hasFunction name then
    { m with
      functions := updateFirst (·.name = name)
        (fun f => { f with linkage, body := some (f.body.getD [.ret]) }) m.functions }
  else { m with functions := m.functions ++ [{ name, linkage, body := some [.ret] }] }

/-- Adds a call in front of the caller's return. Both functions have to be there, and the caller
to have a body. -/
def addCall (m : Module) (caller callee : String) : Except CoverageError Module :=
  if ¬ m.hasFunction callee then .error (.unknownFunction callee)
  else if ((m.function? caller).bind (·.body)).isNone then .error (.unknownFunction caller)
  else
    .ok { m with
      functions := updateFirst (·.name = caller)
        (fun f => { f with body := f.body.map (insertBeforeReturn (.call callee none)) })
        m.functions }

/-- Declares a function unless there is one of that name. -/
def declareFunction (m : Module) (name : String) : Except CoverageError Module :=
  if (m.global? name).isSome then .error (.host s!"`{name}` is already defined as a global")
  else if m.hasFunction name then .ok m
  else
    .ok { m with
      functions := m.functions ++ [{ name, linkage := .externalLinkage, body := none }] }

/-- Declares an intrinsic unless the function of that name is one. -/
def declareIntrinsic (m : Module) (name : String) : Except CoverageError Module :=
  if (Symbol.after? Symbol.intrinsicHead name).isNone then .error (.missingIntrinsic name)
  else if m.hasIntrinsic name then .ok m
  else
    .ok { m with
      functions := m.functions
        ++ [{ name, linkage := .externalLinkage, body := none, isIntrinsic := true }] }

/-! ### Global variables -/

/-- Puts a variable into the module: in the place of the global of that name, which keeps its
owner, or else behind all others. -/
def putVariable (m : Module) (v : Variable) : Module :=
  if (m.global? v.name).isSome then
    { m with
      globals := updateFirst (·.name = v.name) (fun g => { g with definition := v }) m.globals }
  else { m with globals := m.globals ++ [{ definition := v }] }

/-- Puts a variable into the module that lives and dies with a function. -/
def putOwned (m : Module) (v : Variable) (owner : String) : Module :=
  let m := m.putVariable v
  { m with
    globals := updateFirst (·.name = v.name) (fun g => { g with owner := some owner }) m.globals }

/-- Defines a variable, anew if there is one of that name. Its name has to be no function's, and
what its value refers to has to be there. -/
def defineVariable (m : Module) (v : Variable) : Except CoverageError Module :=
  if m.hasFunction v.name then .error (.host s!"`{v.name}` is already defined as a function")
  else
    match v.value.references.find? (¬ m.hasSymbol ·) with
    | some name => .error (.unknownSymbol name)
    | none => .ok (m.putVariable v)

/-- Deletes the globals of a name. -/
def removeGlobal (m : Module) (name : String) : Module :=
  { m with globals := m.globals.filter (·.name ≠ name) }

end Module

/-! ### Increments in function bodies -/

/-- A place in the body of a function at which increments are inserted. -/
structure BodyCursor where
  function : String
  position : Nat
  deriving Repr, DecidableEq

namespace Module

/-- Whether a function is a definition of the given name. -/
def definesFunction (name : String) (f : Function) : Bool := f.name = name && f.body.isSome

/-- The start of the body of a function, if there is a definition of that name. -/
def entryCursor? (m : Module) (function : String) : Option BodyCursor :=
  if m.functions.any (definesFunction function) then some ⟨function, 0⟩ else none

/-- Inserts a call of an intrinsic that increments a counter, and moves the cursor behind it. The
intrinsic has to be declared, and the name variable to be there and to hold bytes. -/
def insertIncrement (m : Module) (cursor : BodyCursor) (intrinsic : String)
    (increment : Increment) : Except CoverageError (Module × BodyCursor) :=
  if ¬ m.hasIntrinsic intrinsic then .error (.missingIntrinsic intrinsic)
  else if (m.bytes? increment.nameVariable).isNone then
    .error (.unknownSymbol increment.nameVariable)
  else if ¬ m.functions.any (definesFunction cursor.function) then
    .error (.host s!"cannot insert into declaration `{cursor.function}`")
  else
    let call := Instruction.call intrinsic (some increment)
    let functions := updateFirst (definesFunction cursor.function)
      (fun f => { f with body := f.body.map (·.insertIdx cursor.position call) }) m.functions
    .ok ({ m with functions }, { cursor with position := cursor.position + 1 })

end Module

end SourceCoverage
