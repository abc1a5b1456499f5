import SourceCoverage.Instrumentation
import SourceCoverage.Leb128
import SourceCoverage.Pipeline.Basic
import SourceCoverage.Pipeline.References
import SourceCoverage.Text.Utf8

/-!
# Lowering of Increments

Lowering gives every instrumented function a counter array and a profile data record, both owned
by the function, and turns each increment into an update of its element of the array. Whose
counters an increment counts is told by the variable it refers to, which holds the function's
name; the first increment that refers to a variable determines the size of the array and the
hash in the record.

The name variables are then deleted, and their names kept together as one variable: for each
lowering, in order, the length of its names, a zero, and the names separated by a byte 1.
-/

namespace SourceCoverage

/-- The section of counter arrays. -/
def countersSection : String := "__llvm_prf_cnts"

/-- The section of profile data records. -/
def profileDataSection : String := "__llvm_prf_data"

/-- The section of the names. -/
def namesSection : String := "__llvm_prf_names"

/-! ### Increments -/

/-- The increment that an instruction is, if it calls the increment intrinsic. -/
def Instruction.increment? : Instruction → Option Increment
  | .call callee (some increment) =>
    if callee = Symbol.incrementIntrinsic then some increment else none
  | _ => none

/-- The increments in the bodies of a module, in order. -/
def Module.increments (m : Module) : List Increment :=
  m.functions.flatMap fun f => f.instructions.filterMap (·.increment?)

/-- Those of the increments that refer to a name variable first. -/
def firstUses (increments : List Increment) : List Increment :=
  increments.foldl (fun uses increment =>
    if uses.any (·.nameVariable = increment.nameVariable) then uses
    else uses ++ [increment]) []

/-- A name variable, and the function whose name it holds. -/
structure ProfiledName where
  nameVariable : String
  function : String
  deriving Repr, DecidableEq

/-- The function whose name a variable holds. -/
def profiledFunction? (profiled : List ProfiledName) (nameVariable : String) : Option String :=
  (profiled.find? (·.nameVariable = nameVariable)).map (·.function)

/-! ### What lowering adds -/

/-- The counter array of a function. -/
def counterArray (function : String) (count : UInt32) : Variable where
  name := Symbol.counters function
  value := .counters count
  linkage := .privateLinkage
  sectionName := some countersSection
  alignment := some 8

/-- The profile data record of a function: its name hash, its function hash, its counter array,
and the number of counters. -/
def profileDataRecord (function : String) (functionHash : UInt64) (count : UInt32) : Variable where
  name := Symbol.profileData function
  value := .struct [.u64 (nameHash (utf8 function)), .u64 functionHash,
    .address (Symbol.counters function), .u32 count]
  linkage := .privateLinkage
  sectionName := some profileDataSection
  alignment := some 8

/-- The module with the counter array and the profile data record of a function, as the first
increment of its counters demands them. -/
def Module.profile (m : Module) (function : String) (use : Increment) : Module :=
  (m.putOwned (counterArray function use.counterCount) function).putOwned
    (profileDataRecord function use.functionHash use.counterCount) function

/-- The instruction that an increment is lowered to; any other one is left alone. -/
def Instruction.lower (lowering : Lowering) (profiled : List ProfiledName) (i : Instruction) :
    Instruction :=
  match i.increment? with
  | none => i
  | some increment =>
    match profiledFunction? profiled increment.nameVariable with
    | none => i
    | some function =>
      if lowering.atomic then .atomicAdd (Symbol.counters function) increment.index
      else .loadAddStore (Symbol.counters function) increment.index

/-- The module with its increments lowered. -/
def Module.lowerBodies (m : Module) (lowering : Lowering) (profiled : List ProfiledName) :
    Module :=
  { m with
    functions := m.functions.map fun f =>
      { f with body := f.body.map (·.map (·.lower lowering profiled)) } }

/-- The byte between two names. -/
def nameSeparator : UInt8 := 1

/-- The names of one lowering, as they are kept: their length, a zero that says that they are not
compressed, and the names. -/
def namesChunk (profiled : List ProfiledName) : Bytes :=
  let names := [nameSeparator].intercalate (profiled.map (utf8 ·.function))
  Leb128.writeNat names.length ++ Leb128.writeNat 0 ++ names

/-- The variable that holds the names of every lowering. -/
def namesVariable (chunks : Bytes) : Variable where
  name := Symbol.profileNames
  value := .bytes chunks
  isConstant := true
  linkage := .privateLinkage
  sectionName := some namesSection

/-- The module with the name variables folded into the names that are kept. -/
def Module.foldNames (m : Module) (profiled : List ProfiledName) : Module :=
  let kept := (m.bytes? Symbol.profileNames).getD []
  let m := profiled.foldl (fun m name => m.removeGlobal name.nameVariable) m
  m.putVariable (namesVariable (kept ++ namesChunk profiled))

/-! ### The pass -/

namespace PassAction

/-- Adds what the first increment of a function's counters demands. -/
def profileFirst (use : Increment) : PassAction ProfiledName := do
  let m ← getModule
  match m.bytes? use.nameVariable with
  | none =>
    throw (.backend s!"increment refers to missing name variable `{use.nameVariable}`")
  | some data =>
    let function := Text.ofDamagedUtf8 data
    setModule (m.profile function use)
    if functionHash (utf8 function) ≠ use.functionHash then report (.hashDiffers function)
    return ⟨use.nameVariable, function⟩

/-- Adds what the first increments of all functions' counters demand. -/
def profileAll (uses : List Increment) : PassAction (List ProfiledName) := uses.mapM profileFirst

/-- Lowers every increment of the module. -/
def lowerIncrements (lowering : Lowering) : PassAction Change := do
  let increments := (← getModule).increments
  if increments = [] then return .unchanged
  let profiled ← profileAll (firstUses increments)
  let m ← getModule
  let m := (m.lowerBodies lowering profiled).foldNames profiled
  setModule m
  report (.incrementsLowered m.name increments.length profiled.length lowering.atomic)
  return .changed

end PassAction

end SourceCoverage
