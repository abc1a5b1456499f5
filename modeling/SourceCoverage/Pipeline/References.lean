import SourceCoverage.Session

/-!
# The Reference Graph

Which symbols refer to which. A graph is a list of symbols, each with the names that it refers
to, in order; no symbol stands in it twice. The graph of a module has its functions and its
global variables; where names coincide, a global takes the place of a function, and the references
of a function are those of the first one of its name.

Several passes need the graph, and it is kept between them until a pass changes the module. What
is kept goes by the name of *analyses*; keeping them is nothing that a result may depend on, but
how often they were computed and how often they were at hand is counted.
-/

namespace SourceCoverage

/-- Symbols, each with the names that it refers to. -/
abbrev ReferenceGraph := List (String × List String)

namespace ReferenceGraph

/-- The graph with a symbol, whose former entry is given up. -/
def insert (graph : ReferenceGraph) (symbol : String) (references : List String) :
    ReferenceGraph :=
  graph.filter (·.1 ≠ symbol) ++ [(symbol, references)]

end ReferenceGraph

namespace Module

/-- The names that the body of the function of a name refers to. -/
def functionReferences (m : Module) (name : String) : List String :=
  ((m.function? name).map (·.references)).getD []

/-- The graph with the global variables of a module put in. -/
def insertGlobals (m : Module) (graph : ReferenceGraph) : ReferenceGraph :=
  m.globals.foldl (fun graph g => graph.insert g.name g.definition.value.references) graph

/-- The reference graph of a module. -/
def referenceGraph (m : Module) : ReferenceGraph :=
  m.insertGlobals <|
    m.functions.foldl (fun graph f => graph.insert f.name (m.functionReferences f.name)) []

end Module

/-! ### Kept analyses -/

/-- The analyses at hand, and what was counted on the way: the references of functions, by name,
and the graph. -/
structure Analyses where
  functions : List (String × List String) := []
  graph : Option ReferenceGraph := none
  stats : RunStats := {}
  deriving Repr, DecidableEq

namespace Analyses

/-- The analyses with one more hit counted. -/
def hit (a : Analyses) : Analyses :=
  { a with stats := { a.stats with cacheHits := a.stats.cacheHits + 1 } }

/-- The analyses with one more computation counted. -/
def computed (a : Analyses) : Analyses :=
  { a with stats := { a.stats with analysesComputed := a.stats.analysesComputed + 1 } }

/-- The analyses with one more pass counted. -/
def enterPass (a : Analyses) : Analyses :=
  { a with stats := { a.stats with passesRun := a.stats.passesRun + 1 } }

/-- Gives up what is at hand, because the module has changed. -/
def invalidate (a : Analyses) : Analyses where
  stats := { a.stats with invalidations := a.stats.invalidations + 1 }

/-- The references of the function of a name, from what is at hand if they are. -/
def functionReferences (m : Module) (name : String) (a : Analyses) : List String × Analyses :=
  match a.functions.lookup name with
  | some references => (references, a.hit)
  | none =>
    let references := m.functionReferences name
    (references, { a.computed with functions := (name, references) :: a.functions })

/-- The graph with the given functions of a module put in. -/
def insertFunctions (m : Module) :
    List Function → ReferenceGraph → Analyses → ReferenceGraph × Analyses
  | [], graph, a => (graph, a)
  | f :: rest, graph, a =>
    let (references, a) := a.functionReferences m f.name
    insertFunctions m rest (graph.insert f.name references) a

/-- The reference graph of a module, from what is at hand if it is. -/
def referenceGraph (m : Module) (a : Analyses) : ReferenceGraph × Analyses :=
  match a.graph with
  | some graph => (graph, a.hit)
  | none =>
    let (graph, a) := insertFunctions m m.functions [] a
    let graph := m.insertGlobals graph
    (graph, { a.computed with graph := some graph })

end Analyses

/-! ### Passes at work -/

/-- Whether a pass changed the module. -/
inductive Change where
  | unchanged
  | changed
  deriving Repr, DecidableEq

/-- The work of a pipeline on a module: the module, the analyses at hand, and the log. -/
structure PassState where
  module : Module
  analyses : Analyses := {}
  log : Array Event := #[]

/-- An operation on a module by a pass. -/
abbrev PassAction (α : Type) := EStateM PipelineError PassState α

namespace PassAction

/-- Reports an event. -/
def report (event : Event) : PassAction Unit := modify fun s => { s with log := s.log.push event }

/-- The module as it stands. -/
def getModule : PassAction Module := return (← get).module

/-- The module can always be had, and stays as it is. -/
theorem getModule_bind {α : Type} (next : Module → PassAction α) (s : PassState) :
    (getModule >>= next) s = next s.module s := rfl

/-- Puts another module in the place of the one that was worked on. -/
def setModule (m : Module) : PassAction Unit := modify fun s => { s with module := m }

/-- A module can always be put in the place of another. -/
theorem setModule_bind {α : Type} (m : Module) (next : Unit → PassAction α) (s : PassState) :
    (setModule m >>= next) s = next () { s with module := m } := rfl

/-- Changes the analyses at hand. -/
def withAnalyses (f : Analyses → Analyses) : PassAction Unit :=
  modify fun s => { s with analyses := f s.analyses }

/-- The reference graph of the module. -/
def referenceGraph : PassAction ReferenceGraph := fun s =>
  let (graph, analyses) := s.analyses.referenceGraph s.module
  .ok graph { s with analyses }

/-- Gives up the analyses if the module was changed. -/
def settle : Change → PassAction Unit
  | .unchanged => return ()
  | .changed => withAnalyses (·.invalidate)

end PassAction

end SourceCoverage
