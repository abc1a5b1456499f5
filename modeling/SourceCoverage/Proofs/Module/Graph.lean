import SourceCoverage.Pipeline.References

/-!
# The Graph of an Unambiguous Module

A module is *unambiguous* if no two of its symbols share a name. Its reference graph is then no
more than the list of its functions and global variables, each with what its body or its value
refers to, and looking up a name gives the one symbol that bears it.

## Main results

* `Module.function?_eq_some_iff`, `Module.global?_eq_some_iff`: looking up is membership.
* `Module.referenceGraph_eq`: the graph, entry by entry.
* `Module.mem_references_of_mem_referenceGraph`: what is left of this where names are ambiguous.
-/

namespace SourceCoverage

/-! ### Looking up by name -/

/-- Where no two elements share a key, the first one with a key is the one with that key. -/
theorem find?_key_eq_some_iff {α : Type} {key : α → String} {xs : List α}
    (hnodup : (xs.map key).Nodup) {name : String} {x : α} :
    xs.find? (key · = name) = some x ↔ x ∈ xs ∧ key x = name := by
  constructor
  · intro h
    have hkey := List.find?_some h
    exact ⟨List.mem_of_find?_eq_some h, of_decide_eq_true hkey⟩
  · rintro ⟨hmem, hkey⟩
    induction xs with
    | nil => exact absurd hmem List.not_mem_nil
    | cons y ys ih =>
        rw [List.map_cons, List.nodup_cons] at hnodup
        by_cases hy : key y = name
        · rcases List.mem_cons.1 hmem with rfl | hmem
          · rw [List.find?_cons_of_pos (by simpa using hy)]
          · exact absurd (hy.trans hkey.symm ▸ List.mem_map_of_mem hmem) hnodup.1
        · rw [List.find?_cons_of_neg (by simpa using hy)]
          rcases List.mem_cons.1 hmem with rfl | hmem
          · exact absurd hkey hy
          · exact ih hnodup.2 hmem

/-- Something with a key is found exactly when there is something with that key. -/
theorem isSome_find?_key_iff {α : Type} {key : α → String} {xs : List α} {name : String} :
    (xs.find? (key · = name)).isSome ↔ name ∈ xs.map key := by
  simp [List.find?_isSome, List.mem_map]

namespace Module

variable {m : Module}

/-- No two symbols of the module share a name. -/
structure Unambiguous (m : Module) : Prop where
  functions : m.functionNames.Nodup
  globals : m.globalNames.Nodup
  disjoint : ∀ name ∈ m.functionNames, name ∉ m.globalNames

/-- Looking up a function finds the one of that name. -/
theorem function?_eq_some_iff (h : m.functionNames.Nodup) {name : String} {f : Function} :
    m.function? name = some f ↔ f ∈ m.functions ∧ f.name = name :=
  find?_key_eq_some_iff h

/-- Looking up a global variable finds the one of that name. -/
theorem global?_eq_some_iff (h : m.globalNames.Nodup) {name : String} {g : Global} :
    m.global? name = some g ↔ g ∈ m.globals ∧ g.name = name :=
  find?_key_eq_some_iff h

/-- Which names are those of functions. -/
theorem hasFunction_iff {name : String} : m.hasFunction name ↔ name ∈ m.functionNames :=
  isSome_find?_key_iff

/-- Which names are those of global variables. -/
theorem isSome_global?_iff {name : String} : (m.global? name).isSome ↔ name ∈ m.globalNames :=
  isSome_find?_key_iff

/-- Which names are those of symbols. -/
theorem hasSymbol_iff {name : String} :
    m.hasSymbol name ↔ name ∈ m.globalNames ∨ name ∈ m.functionNames := by
  rw [hasSymbol, Bool.or_eq_true, isSome_global?_iff, ← hasFunction_iff, hasFunction]

/-- The references of a function are found by its name. -/
theorem functionReferences_eq (h : m.functionNames.Nodup) {f : Function}
    (hf : f ∈ m.functions) : m.functionReferences f.name = f.references := by
  rw [functionReferences, (function?_eq_some_iff h).2 ⟨hf, rfl⟩]
  rfl

end Module

/-! ### The reference graph -/

namespace ReferenceGraph

/-- Putting symbols that the graph does not have yet into it appends them. -/
theorem foldl_insert {α : Type} {key : α → String} {value : α → List String} {xs : List α}
    (hnodup : (xs.map key).Nodup) {graph : ReferenceGraph}
    (hfresh : ∀ entry ∈ graph, entry.1 ∉ xs.map key) :
    xs.foldl (fun graph x => graph.insert (key x) (value x)) graph
      = graph ++ xs.map fun x => (key x, value x) := by
  induction xs generalizing graph with
  | nil => simp
  | cons x xs ih =>
      rw [List.map_cons, List.nodup_cons] at hnodup
      have hinsert : graph.insert (key x) (value x) = graph ++ [(key x, value x)] := by
        have hkeep : graph.filter (fun entry => decide (entry.1 ≠ key x)) = graph := by
          refine List.filter_eq_self.2 fun entry hentry => decide_eq_true fun heq => ?_
          exact hfresh entry hentry (heq ▸ List.mem_cons_self ..)
        rw [insert, hkeep]
      rw [List.foldl_cons, hinsert, ih hnodup.2]
      · simp
      · intro entry hentry
        rcases List.mem_append.1 hentry with hentry | hentry
        · exact fun hmem => hfresh entry hentry (List.mem_cons_of_mem _ hmem)
        · obtain rfl := List.mem_singleton.1 hentry
          exact hnodup.1

/-- An entry of a graph that symbols were put into is an old one or that of one of them. -/
theorem mem_foldl_insert {α : Type} {key : α → String} {value : α → List String} {xs : List α}
    {graph : ReferenceGraph} {entry : String × List String}
    (h : entry ∈ xs.foldl (fun graph x => graph.insert (key x) (value x)) graph) :
    entry ∈ graph ∨ ∃ x ∈ xs, (key x, value x) = entry := by
  induction xs generalizing graph with
  | nil => exact .inl h
  | cons x xs ih =>
      rcases ih h with hinsert | ⟨y, hy, heq⟩
      · rcases List.mem_append.1 hinsert with hold | hnew
        · exact .inl (List.mem_filter.1 hold).1
        · exact .inr ⟨x, List.mem_cons_self .., (List.mem_singleton.1 hnew).symm⟩
      · exact .inr ⟨y, List.mem_cons_of_mem _ hy, heq⟩

end ReferenceGraph

namespace Module

variable {m : Module}

/-- Ambiguous names or not, what a graph has of a symbol is what the module refers to. -/
theorem mem_references_of_mem_referenceGraph {entry : String × List String}
    (h : entry ∈ m.referenceGraph) {name : String} (hname : name ∈ entry.2) :
    name ∈ m.references := by
  rw [references, List.mem_append, List.mem_flatMap, List.mem_flatMap]
  rcases ReferenceGraph.mem_foldl_insert h with hfunction | ⟨g, hg, rfl⟩
  · rcases ReferenceGraph.mem_foldl_insert hfunction with hnil | ⟨f, hf, rfl⟩
    · cases hnil
    · rw [functionReferences] at hname
      cases hfind : m.function? f.name with
      | none =>
          rw [hfind] at hname
          cases hname
      | some first =>
          rw [hfind] at hname
          exact .inl ⟨first, List.mem_of_find?_eq_some hfind, hname⟩
  · exact .inr ⟨g, hg, hname⟩

/-- The graph entries of functions. -/
def functionEntries (m : Module) : ReferenceGraph :=
  m.functions.map fun f => (f.name, f.references)

/-- The graph entries of global variables. -/
def globalEntries (m : Module) : ReferenceGraph :=
  m.globals.map fun g => (g.name, g.definition.value.references)

/-- **The reference graph of an unambiguous module** has an entry for every function and for
every global variable, in order. -/
theorem referenceGraph_eq (h : m.Unambiguous) :
    m.referenceGraph = m.functionEntries ++ m.globalEntries := by
  have hfunctions : m.functions.foldl
      (fun (graph : ReferenceGraph) f => graph.insert f.name (m.functionReferences f.name)) []
      = m.functionEntries := by
    rw [ReferenceGraph.foldl_insert h.functions (by simp), List.nil_append, functionEntries]
    refine List.map_congr_left fun f hf => ?_
    rw [functionReferences_eq h.functions hf]
  rw [referenceGraph, hfunctions, insertGlobals]
  refine ReferenceGraph.foldl_insert h.globals fun entry hentry => ?_
  obtain ⟨f, hf, rfl⟩ := List.mem_map.1 hentry
  exact h.disjoint _ (List.mem_map_of_mem hf)

end Module

end SourceCoverage
