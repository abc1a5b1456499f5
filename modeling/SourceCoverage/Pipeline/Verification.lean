import SourceCoverage.Pipeline.References

/-!
# Verification

A module is well formed if every name that is referred to is a symbol of it, every increment is a
call of an intrinsic, and every body ends in a return. Verification looks for an *offence* against
these rules, in this order, and fails with the first one that it finds.
-/

namespace SourceCoverage

/-- What keeps a module from being well formed. -/
inductive Offence where
  /-- A symbol refers to a name that is no symbol. -/
  | undefinedSymbol (symbol target : String)
  /-- A function passes the arguments of an increment to something else than an intrinsic. -/
  | notIntrinsic (function callee : String)
  /-- The body of a function does not end in a return. -/
  | noTerminator (function : String)
  deriving Repr, DecidableEq

/-- The wording of an offence. -/
def Offence.message : Offence → String
  | undefinedSymbol symbol target => s!"`{symbol}` refers to undefined symbol `{target}`"
  | notIntrinsic function callee =>
    s!"increment in `{function}` calls `{callee}`, which is not an intrinsic"
  | noTerminator function => s!"entry block of `{function}` has no terminator"

namespace Module

/-- The first name that an entry of the graph refers to without there being such a symbol. -/
def danglingOffence? (m : Module) (entry : String × List String) : Option Offence :=
  (entry.2.find? (¬ m.hasSymbol ·)).map (.undefinedSymbol entry.1)

/-- The offence of an instruction: that it is an increment, but calls no intrinsic. -/
def instructionOffence? (m : Module) (f : Function) : Instruction → Option Offence
  | .call callee (some _) =>
    if m.hasIntrinsic callee then none else some (.notIntrinsic f.name callee)
  | _ => none

/-- The first offence in the body of a function. -/
def functionOffence? (m : Module) (f : Function) : Option Offence :=
  (f.instructions.findSome? (m.instructionOffence? f)).or <|
    match f.body with
    | some body => if body.getLast? = some .ret then none else some (.noTerminator f.name)
    | none => none

/-- The first offence of the module, when the references are as the graph has them. -/
def offence? (m : Module) (graph : ReferenceGraph) : Option Offence :=
  (graph.findSome? m.danglingOffence?).or (m.functions.findSome? m.functionOffence?)

end Module

/-- Fails if the module is not well formed. -/
def PassAction.verify : PassAction Unit := do
  let graph ← referenceGraph
  match (← getModule).offence? graph with
  | none => return ()
  | some offence => throw (.verification offence.message)

end SourceCoverage
