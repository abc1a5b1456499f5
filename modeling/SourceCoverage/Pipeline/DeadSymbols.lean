import SourceCoverage.Pipeline.References

/-!
# Dead Symbols

Two ways to make a module smaller. The first deletes every definition that is *dead*: out of
reach from the *roots*, which are the declarations, what other modules may refer to, and what
stands in a section of its own without an owner. From a symbol one reaches what its body or its
value refers to, and the global variables that it owns. The second deletes the declarations that
nothing refers to.

## Main results

* `targetCount_edgesWithout` — visiting a symbol moves its successors from the edges that
  remain to the symbols that are still to be visited, so that the traversal comes to an end.
-/

namespace SourceCoverage

/-! ### What is within reach -/

/-- The names that the edges lead to from a symbol. -/
def successors (edges : List (String × List String)) (symbol : String) : List String :=
  (edges.filter (·.1 = symbol)).flatMap (·.2)

/-- The edges from other symbols. -/
def edgesWithout (edges : List (String × List String)) (symbol : String) :
    List (String × List String) :=
  edges.filter (·.1 ≠ symbol)

/-- How many names a list of edges leads to, repetitions included. -/
def targetCount (edges : List (String × List String)) : Nat := (edges.flatMap (·.2)).length

/-- Giving up the edges of a symbol leaves as many names less as it has successors. -/
theorem targetCount_edgesWithout (edges : List (String × List String)) (symbol : String) :
    (successors edges symbol).length + targetCount (edgesWithout edges symbol)
      = targetCount edges := by
  induction edges with
  | nil => rfl
  | cons edge edges ih =>
    by_cases h : edge.1 = symbol
    · simp [successors, edgesWithout, targetCount, h] at ih ⊢
      omega
    · simp [successors, edgesWithout, targetCount, h] at ih ⊢
      omega

/-- The symbols that are reached from those still to be visited, with those reached already. The
edges of a symbol are followed once and given up. -/
def reachFrom (edges : List (String × List String)) (reached : List String) :
    (pending : List String) → List String
  | [] => reached
  | symbol :: pending =>
    if symbol ∈ reached then reachFrom edges reached pending
    else
      reachFrom (edgesWithout edges symbol) (symbol :: reached)
        (successors edges symbol ++ pending)
termination_by pending => targetCount edges + pending.length
decreasing_by
  · simp only [List.length_cons]
    omega
  · have := targetCount_edgesWithout edges symbol
    simp only [List.length_append, List.length_cons]
    omega

namespace Module

/-- The symbols that are alive whatever refers to them. -/
def roots (m : Module) : List String :=
  (m.functions.filter fun f => f.isDeclaration || !f.linkage.isDiscardable).map (·.name)
    ++ (m.globals.filter fun g => g.owner.isNone
        && (!g.definition.linkage.isDiscardable || g.definition.sectionName.isSome)).map (·.name)

/-- The edges from owners to the global variables that they own. -/
def ownerEdges (m : Module) : List (String × List String) :=
  m.globals.filterMap fun g => g.owner.map fun owner => (owner, [g.name])

/-- The symbols that are alive, when the references are as the graph has them. -/
def liveSymbols (m : Module) (graph : ReferenceGraph) : List String :=
  reachFrom (graph ++ m.ownerEdges) [] m.roots

/-! ### Deleting -/

/-- The module with those of its symbols alone that are in a list. -/
def restrict (m : Module) (live : List String) : Module :=
  { m with
    functions := m.functions.filter (·.name ∈ live)
    globals := m.globals.filter (·.name ∈ live) }

/-- The number of functions and global variables. -/
def symbolCount (m : Module) : Nat := m.functions.length + m.globals.length

/-- The module without the declarations that nothing refers to. -/
def stripDeadPrototypes (m : Module) : Module :=
  let references := m.references
  { m with functions := m.functions.filter fun f => !f.isDeclaration || f.name ∈ references }

end Module

namespace PassAction

/-- Deletes the dead symbols of the module. -/
def removeDeadSymbols : PassAction Change := do
  let graph ← referenceGraph
  let m ← getModule
  let live := m.liveSymbols graph
  let kept := m.restrict live
  setModule kept
  let removed := m.symbolCount - kept.symbolCount
  if removed = 0 then return .unchanged
  let dead := m.functionNames.filter (· ∉ live)
  report (.deadSymbolsRemoved m.name removed dead)
  return .changed

/-- Deletes the declarations of the module that nothing refers to. -/
def stripDeadPrototypes : PassAction Change := do
  let m ← getModule
  let kept := m.stripDeadPrototypes
  setModule kept
  return if kept.functions.length = m.functions.length then .unchanged else .changed

end PassAction

end SourceCoverage
