import SourceCoverage.Constant

/-!
# Modules

A module under instrumentation: global variables with their initial values, and functions whose
body is one block of instructions. Only what instrumentation, optimisation and emission look at is
kept of a program: who calls whom, which counters are updated where, and how symbols are linked.

Symbols are found by name, and where several share one, the first is meant. The order of globals
and of functions is part of a module, since the coverage records are emitted in it.
-/

namespace SourceCoverage

/-- How a symbol is seen by the linker. -/
inductive Linkage where
  | privateLinkage
  | internalLinkage
  | externalLinkage
  /-- Merged with the same definition in other modules, and discarded where unused. -/
  | linkOnceOdr
  /-- Merged with the same definition in other modules. -/
  | weakOdr
  deriving Repr, DecidableEq

namespace Linkage

/-- Whether the symbol cannot be seen outside its module. -/
def isLocal : Linkage → Bool
  | privateLinkage => true
  | internalLinkage => true
  | _ => false

/-- Whether an unused definition may be deleted. -/
def isDiscardable (linkage : Linkage) : Bool := linkage.isLocal || linkage == .linkOnceOdr

end Linkage

/-- How a symbol is seen by the loader. -/
inductive Visibility where
  | defaultVisibility
  | hidden
  | protectedVisibility
  deriving Repr, DecidableEq

/-- The definition of a global variable. -/
structure Variable where
  name : String
  value : Constant
  isConstant : Bool := false
  linkage : Linkage := .externalLinkage
  visibility : Visibility := .defaultVisibility
  sectionName : Option String := none
  alignment : Option UInt32 := none
  deriving Repr

/-- A global variable of a module. Its owner, if it has one, is the name of the function that it
lives and dies with. -/
structure Global where
  definition : Variable
  owner : Option String := none
  deriving Repr

/-- The name of a global is that of its definition. -/
def Global.name (global : Global) : String := global.definition.name

/-- The arguments of a counter increment: the variable that holds the function's name, the
function hash, the number of counters of the function, and the counter to increment. -/
structure Increment where
  nameVariable : String
  functionHash : UInt64
  counterCount : UInt32
  index : UInt32
  deriving Repr, DecidableEq

/-- An instruction of a function body. -/
inductive Instruction where
  /-- A call; one of the increment intrinsic has the arguments of the increment. -/
  | call (callee : String) (increment : Option Increment)
  /-- Adds one to an element of a counter array, atomically. -/
  | atomicAdd (counters : String) (index : UInt32)
  /-- Loads an element of a counter array, adds one, and stores it. -/
  | loadAddStore (counters : String) (index : UInt32)
  | ret
  deriving Repr, DecidableEq

/-- The symbols that an instruction refers to, in order. -/
def Instruction.references : Instruction → List String
  | call callee none => [callee]
  | call callee (some increment) => [callee, increment.nameVariable]
  | atomicAdd counters _ => [counters]
  | loadAddStore counters _ => [counters]
  | ret => []

/-- A function of a module. A declaration has no body. -/
structure Function where
  name : String
  linkage : Linkage
  body : Option (List Instruction)
  isIntrinsic : Bool := false
  deriving Repr, DecidableEq

namespace Function

/-- Whether the function is declared only. -/
def isDeclaration (f : Function) : Bool := f.body.isNone

/-- The instructions of the body; a declaration has none. -/
def instructions (f : Function) : List Instruction := f.body.getD []

/-- The symbols that the body refers to, in order. -/
def references (f : Function) : List String := f.instructions.flatMap (·.references)

end Function

/-- A module. -/
structure Module where
  name : String
  globals : List Global := []
  functions : List Function := []
  deriving Repr

namespace Module

/-- A module without symbols. -/
def empty (name : String) : Module := { name }

/-! ### Looking up symbols -/

/-- The function of a name. -/
def function? (m : Module) (name : String) : Option Function :=
  m.functions.find? (·.name = name)

/-- The global variable of a name. -/
def global? (m : Module) (name : String) : Option Global :=
  m.globals.find? (·.name = name)

/-- The data of the global variable of a name, if its value is nothing but bytes. -/
def bytes? (m : Module) (name : String) : Option Bytes :=
  (m.global? name).bind (·.definition.value.bytes?)

/-- The names of the functions, in order. -/
def functionNames (m : Module) : List String := m.functions.map (·.name)

/-- The names of the global variables, in order. -/
def globalNames (m : Module) : List String := m.globals.map (·.name)

/-- Whether there is a function of a name. -/
def hasFunction (m : Module) (name : String) : Bool := (m.function? name).isSome

/-- Whether the function of a name is an intrinsic. -/
def hasIntrinsic (m : Module) (name : String) : Bool := (m.function? name).any (·.isIntrinsic)

/-- Whether a name is that of a function or of a global variable. -/
def hasSymbol (m : Module) (name : String) : Bool :=
  (m.global? name).isSome || (m.function? name).isSome

/-- The names that function bodies and initial values refer to. -/
def references (m : Module) : List String :=
  m.functions.flatMap (·.references) ++ m.globals.flatMap (·.definition.value.references)

end Module

end SourceCoverage
