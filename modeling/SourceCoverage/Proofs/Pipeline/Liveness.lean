import Mathlib.Logic.Relation
import SourceCoverage.Pipeline.DeadSymbols
import SourceCoverage.Proofs.Module.Graph

/-!
# Liveness

The traversal that finds the symbols alive gives up the edges of a symbol as soon as it follows
them. What it reaches is all the same what a path of edges leads to: a path that comes through a
symbol can be cut at its *last* departure from there, after which it needs none of the edges that
were given up. In a module without ambiguous names the edges are what one expects them to be:
references of bodies, references of values, and ownership.

## Main results

* `mem_reachFrom_iff`: the traversal reaches what the pending symbols lead to.
* `Module.mem_liveSymbols_iff`: what is alive is found by the traversal.
* `Module.Resolved.withoutDead`: where every reference resolves, every one still does when the
  dead symbols are deleted.
-/

namespace SourceCoverage

open Relation

/-! ### Paths of edges -/

/-- Whether some edge of a list leads from one symbol to another. -/
def Leads (edges : List (String × List String)) (source target : String) : Prop :=
  target ∈ successors edges source

/-- An edge is an entry of the list together with one of its targets. -/
theorem leads_iff {edges : List (String × List String)} {source target : String} :
    Leads edges source target ↔ ∃ targets, (source, targets) ∈ edges ∧ target ∈ targets := by
  simp only [Leads, successors, List.mem_flatMap, List.mem_filter, decide_eq_true_eq]
  constructor
  · rintro ⟨⟨symbol, targets⟩, ⟨hmem, rfl⟩, htarget⟩
    exact ⟨targets, hmem, htarget⟩
  · rintro ⟨targets, hmem, htarget⟩
    exact ⟨(source, targets), ⟨hmem, rfl⟩, htarget⟩

/-- Two lists of edges lead where one of them does. -/
theorem leads_append {edges edges' : List (String × List String)} {source target : String} :
    Leads (edges ++ edges') source target
      ↔ Leads edges source target ∨ Leads edges' source target := by
  simp only [leads_iff, List.mem_append]
  constructor
  · rintro ⟨targets, hmem | hmem, htarget⟩
    · exact .inl ⟨targets, hmem, htarget⟩
    · exact .inr ⟨targets, hmem, htarget⟩
  · rintro (⟨targets, hmem, htarget⟩ | ⟨targets, hmem, htarget⟩)
    · exact ⟨targets, .inl hmem, htarget⟩
    · exact ⟨targets, .inr hmem, htarget⟩

/-- Giving up the edges of a symbol leaves the edges of all others. -/
theorem leads_edgesWithout {edges : List (String × List String)} {symbol source target : String} :
    Leads (edgesWithout edges symbol) source target
      ↔ Leads edges source target ∧ source ≠ symbol := by
  simp only [leads_iff, edgesWithout, List.mem_filter, decide_eq_true_eq]
  constructor
  · rintro ⟨targets, ⟨hmem, hne⟩, htarget⟩
    exact ⟨⟨targets, hmem, htarget⟩, hne⟩
  · rintro ⟨⟨targets, hmem, htarget⟩, hne⟩
    exact ⟨targets, ⟨hmem, hne⟩, htarget⟩

/-- The **last departure**: a path either never leaves from a symbol, or ends there, or goes on
from one of its successors without leaving from it again. -/
theorem last_departure {edges : List (String × List String)} {start target : String}
    (symbol : String) (h : ReflTransGen (Leads edges) start target) :
    ReflTransGen (Leads (edgesWithout edges symbol)) start target ∨ target = symbol ∨
      ∃ next ∈ successors edges symbol,
        ReflTransGen (Leads (edgesWithout edges symbol)) next target := by
  induction h with
  | refl => exact .inl .refl
  | @tail middle target _ hedge ih =>
      by_cases hmiddle : middle = symbol
      · obtain rfl := hmiddle
        exact .inr (.inr ⟨target, hedge, .refl⟩)
      · have hkept := leads_edgesWithout.2 ⟨hedge, hmiddle⟩
        rcases ih with hpath | heq | ⟨next, hnext, hpath⟩
        · exact .inl (hpath.tail hkept)
        · exact absurd heq hmiddle
        · exact .inr (.inr ⟨next, hnext, hpath.tail hkept⟩)

/-- **Following a pending symbol**: it is reached, and so is what its successors and the other
pending symbols lead to once its edges are given up. -/
theorem exists_path_cons_iff {edges : List (String × List String)} {start symbol : String}
    {pending : List String} :
    (∃ s ∈ start :: pending, ReflTransGen (Leads edges) s symbol) ↔
      symbol = start ∨ ∃ s ∈ successors edges start ++ pending,
        ReflTransGen (Leads (edgesWithout edges start)) s symbol := by
  have hsub : ReflTransGen (Leads (edgesWithout edges start)) ≤ ReflTransGen (Leads edges) :=
    ReflTransGen.mono fun _ _ hedge => (leads_edgesWithout.1 hedge).1
  constructor
  · rintro ⟨s, hs, hpath⟩
    rcases last_departure start hpath with hpath | rfl | ⟨next, hnext, hpath⟩
    · rcases List.mem_cons.1 hs with rfl | hs
      · rcases ReflTransGen.cases_head hpath with rfl | ⟨next, hedge, -⟩
        · exact .inl rfl
        · exact absurd rfl (leads_edgesWithout.1 hedge).2
      · exact .inr ⟨s, List.mem_append_right _ hs, hpath⟩
    · exact .inl rfl
    · exact .inr ⟨next, List.mem_append_left _ hnext, hpath⟩
  · rintro (rfl | ⟨s, hs, hpath⟩)
    · exact ⟨_, List.mem_cons_self .., .refl⟩
    · rcases List.mem_append.1 hs with hs | hs
      · exact ⟨start, List.mem_cons_self .., .head hs (hsub _ _ hpath)⟩
      · exact ⟨s, List.mem_cons_of_mem _ hs, hsub _ _ hpath⟩

/-- **What the traversal reaches**: the symbols reached before, whose edges are given up already,
and those that a path leads to from a pending symbol. -/
theorem mem_reachFrom_iff {edges : List (String × List String)} {reached pending : List String}
    {symbol : String} (h : ∀ s ∈ reached, successors edges s = []) :
    symbol ∈ reachFrom edges reached pending
      ↔ symbol ∈ reached ∨ ∃ start ∈ pending, ReflTransGen (Leads edges) start symbol := by
  fun_induction reachFrom edges reached pending with
  | case1 edges reached => simp
  | case2 edges reached start pending hstart ih =>
      -- A symbol reached before leads nowhere any more.
      rw [ih h]
      have hend : ReflTransGen (Leads edges) start symbol → symbol = start := fun hpath => by
        rcases ReflTransGen.cases_head hpath with heq | ⟨next, hedge, -⟩
        · exact heq.symm
        · rw [Leads, h start hstart] at hedge
          exact absurd hedge (List.not_mem_nil)
      constructor
      · rintro (hmem | ⟨s, hs, hpath⟩)
        · exact .inl hmem
        · exact .inr ⟨s, List.mem_cons_of_mem _ hs, hpath⟩
      · rintro (hmem | ⟨s, hs, hpath⟩)
        · exact .inl hmem
        · rcases List.mem_cons.1 hs with rfl | hs
          · exact .inl (hend hpath ▸ hstart)
          · exact .inr ⟨s, hs, hpath⟩
  | case3 edges reached start pending hstart ih =>
      have hreached : ∀ s ∈ start :: reached, successors (edgesWithout edges start) s = [] := by
        intro s hs
        refine List.eq_nil_iff_forall_not_mem.2 fun target htarget => ?_
        obtain ⟨hedge, hne⟩ := leads_edgesWithout.1 htarget
        rcases List.mem_cons.1 hs with heq | hs
        · exact hne heq
        · rw [Leads, h s hs] at hedge
          exact absurd hedge List.not_mem_nil
      rw [ih hreached, exists_path_cons_iff, List.mem_cons, or_assoc, or_left_comm]

/-! ### What is alive -/

namespace Module

variable {m : Module}

/-- One symbol needs another: its body or its value refers to it, or it owns it. -/
inductive Needs (m : Module) : String → String → Prop
  | body {f : Function} {target : String} :
      f ∈ m.functions → target ∈ f.references → Needs m f.name target
  | value {g : Global} {target : String} :
      g ∈ m.globals → target ∈ g.definition.value.references → Needs m g.name target
  | owned {g : Global} {owner : String} :
      g ∈ m.globals → g.owner = some owner → Needs m owner g.name

/-- A symbol is alive if it is needed, at however many removes, by a root. -/
def Alive (m : Module) (symbol : String) : Prop :=
  ∃ root ∈ m.roots, ReflTransGen m.Needs root symbol

/-- A root is alive. -/
theorem Alive.root {symbol : String} (h : symbol ∈ m.roots) : m.Alive symbol :=
  ⟨symbol, h, .refl⟩

/-- What something alive needs is alive. -/
theorem Alive.needs {source target : String} (h : m.Alive source) (hneeds : m.Needs source target) :
    m.Alive target := by
  obtain ⟨root, hroot, hpath⟩ := h
  exact ⟨root, hroot, hpath.tail hneeds⟩

/-- What is alive is a root, or something alive needs it. -/
theorem Alive.root_or_needed {symbol : String} (h : m.Alive symbol) :
    symbol ∈ m.roots ∨ ∃ source, m.Alive source ∧ m.Needs source symbol := by
  obtain ⟨root, hroot, hpath⟩ := h
  rcases ReflTransGen.cases_tail hpath with rfl | ⟨source, hpath, hneeds⟩
  · exact .inl hroot
  · exact .inr ⟨source, ⟨root, hroot, hpath⟩, hneeds⟩

/-- A property of the roots that is handed on to what is needed holds of everything alive. -/
theorem Alive.induction {P : String → Prop} {symbol : String} (h : m.Alive symbol)
    (hroot : ∀ root ∈ m.roots, P root)
    (hneeds : ∀ source target, P source → m.Needs source target → P target) : P symbol := by
  obtain ⟨root, hmem, hpath⟩ := h
  induction hpath with
  | refl => exact hroot root hmem
  | tail _ hedge ih => exact hneeds _ _ ih hedge

/-- Owner edges lead to what is owned. -/
theorem leads_ownerEdges_iff {source target : String} :
    Leads m.ownerEdges source target
      ↔ ∃ g ∈ m.globals, g.owner = some source ∧ g.name = target := by
  simp only [leads_iff, ownerEdges, List.mem_filterMap, Option.map_eq_some_iff, Prod.mk.injEq]
  constructor
  · rintro ⟨_, ⟨g, hg, owner, howner, rfl, rfl⟩, htarget⟩
    exact ⟨g, hg, howner, (List.mem_singleton.1 htarget).symm⟩
  · rintro ⟨g, hg, howner, rfl⟩
    exact ⟨_, ⟨g, hg, source, howner, rfl, rfl⟩, List.mem_singleton_self _⟩

/-- The edges that the traversal follows in an unambiguous module lead to what is needed. -/
theorem leads_iff_needs (h : m.Unambiguous) {source target : String} :
    Leads (m.referenceGraph ++ m.ownerEdges) source target ↔ m.Needs source target := by
  rw [referenceGraph_eq h, leads_append, leads_append, leads_ownerEdges_iff]
  simp only [leads_iff, functionEntries, globalEntries, List.mem_map, Prod.mk.injEq]
  constructor
  · rintro ((⟨_, ⟨f, hf, rfl, rfl⟩, htarget⟩ | ⟨_, ⟨g, hg, rfl, rfl⟩, htarget⟩) |
      ⟨g, hg, howner, rfl⟩)
    · exact .body hf htarget
    · exact .value hg htarget
    · exact .owned hg howner
  · rintro (⟨hf, htarget⟩ | ⟨hg, htarget⟩ | ⟨hg, howner⟩)
    · exact .inl (.inl ⟨_, ⟨_, hf, rfl, rfl⟩, htarget⟩)
    · exact .inl (.inr ⟨_, ⟨_, hg, rfl, rfl⟩, htarget⟩)
    · exact .inr ⟨_, hg, howner, rfl⟩

/-- **The traversal finds what is alive.** -/
theorem mem_liveSymbols_iff (h : m.Unambiguous) {symbol : String} :
    symbol ∈ m.liveSymbols m.referenceGraph ↔ m.Alive symbol := by
  have hleads : Leads (m.referenceGraph ++ m.ownerEdges) = m.Needs :=
    funext fun _ => funext fun _ => propext (leads_iff_needs h)
  rw [liveSymbols, mem_reachFrom_iff (by simp), hleads]
  simp [Alive]

/-! ### Deleting what is dead -/

/-- The module without its dead symbols. -/
def withoutDead (m : Module) : Module := m.restrict (m.liveSymbols m.referenceGraph)

/-- Deleting that deletes nothing leaves the module as it is. -/
theorem restrict_eq_self {live : List String}
    (h : m.symbolCount - (m.restrict live).symbolCount = 0) : m.restrict live = m := by
  have hfunctions : (m.restrict live).functions.length ≤ m.functions.length :=
    List.length_filter_le ..
  have hglobals : (m.restrict live).globals.length ≤ m.globals.length := List.length_filter_le ..
  rw [symbolCount, symbolCount] at h
  have hle : m.functions.length ≤ (m.restrict live).functions.length := by omega
  have hfunctions : (m.restrict live).functions = m.functions :=
    List.filter_sublist.eq_of_length_le hle
  have hle : m.globals.length ≤ (m.restrict live).globals.length := by omega
  have hglobals : (m.restrict live).globals = m.globals :=
    List.filter_sublist.eq_of_length_le hle
  calc m.restrict live
      = { m with functions := (m.restrict live).functions
                 globals := (m.restrict live).globals } := rfl
    _ = m := by rw [hfunctions, hglobals]

/-- The functions that are left are those alive. -/
theorem mem_functions_withoutDead (h : m.Unambiguous) {f : Function} :
    f ∈ m.withoutDead.functions ↔ f ∈ m.functions ∧ m.Alive f.name := by
  rw [withoutDead, restrict, List.mem_filter, decide_eq_true_eq, mem_liveSymbols_iff h]

/-- The global variables that are left are those alive. -/
theorem mem_globals_withoutDead (h : m.Unambiguous) {g : Global} :
    g ∈ m.withoutDead.globals ↔ g ∈ m.globals ∧ m.Alive g.name := by
  rw [withoutDead, restrict, List.mem_filter, decide_eq_true_eq, mem_liveSymbols_iff h]

/-- The names of the functions that are left. -/
theorem mem_functionNames_withoutDead (h : m.Unambiguous) {name : String} :
    name ∈ m.withoutDead.functionNames ↔ name ∈ m.functionNames ∧ m.Alive name := by
  simp only [functionNames, List.mem_map, mem_functions_withoutDead h]
  constructor
  · rintro ⟨f, ⟨hf, halive⟩, rfl⟩
    exact ⟨⟨f, hf, rfl⟩, halive⟩
  · rintro ⟨⟨f, hf, rfl⟩, halive⟩
    exact ⟨f, ⟨hf, halive⟩, rfl⟩

/-- The names of the global variables that are left. -/
theorem mem_globalNames_withoutDead (h : m.Unambiguous) {name : String} :
    name ∈ m.withoutDead.globalNames ↔ name ∈ m.globalNames ∧ m.Alive name := by
  simp only [globalNames, List.mem_map, mem_globals_withoutDead h]
  constructor
  · rintro ⟨g, ⟨hg, halive⟩, rfl⟩
    exact ⟨⟨g, hg, rfl⟩, halive⟩
  · rintro ⟨⟨g, hg, rfl⟩, halive⟩
    exact ⟨g, ⟨hg, halive⟩, rfl⟩

/-- A symbol is left exactly if it is alive. -/
theorem hasSymbol_withoutDead (h : m.Unambiguous) {name : String} :
    m.withoutDead.hasSymbol name ↔ m.hasSymbol name ∧ m.Alive name := by
  rw [hasSymbol_iff, hasSymbol_iff, mem_globalNames_withoutDead h, mem_functionNames_withoutDead h,
    or_and_right]

/-- Deleting symbols makes no names ambiguous. -/
theorem Unambiguous.restrict (h : m.Unambiguous) (live : List String) :
    (m.restrict live).Unambiguous where
  functions := h.functions.sublist (List.filter_sublist.map _)
  globals := h.globals.sublist (List.filter_sublist.map _)
  disjoint := fun name hf hg =>
    h.disjoint name ((List.filter_sublist.map _).subset hf) ((List.filter_sublist.map _).subset hg)

/-- Every name that is referred to is that of a symbol. -/
def Resolved (m : Module) : Prop := ∀ name ∈ m.references, m.hasSymbol name

/-- What the module refers to, symbol by symbol. -/
theorem mem_references_iff {name : String} :
    name ∈ m.references ↔ (∃ f ∈ m.functions, name ∈ f.references) ∨
      ∃ g ∈ m.globals, name ∈ g.definition.value.references := by
  rw [references, List.mem_append, List.mem_flatMap, List.mem_flatMap]

/-- The roots are symbols. -/
theorem hasSymbol_of_mem_roots {name : String} (h : name ∈ m.roots) : m.hasSymbol name := by
  rw [hasSymbol_iff]
  rcases List.mem_append.1 h with hfunction | hglobal
  · obtain ⟨f, hf, rfl⟩ := List.mem_map.1 hfunction
    exact .inr (List.mem_map_of_mem (List.mem_filter.1 hf).1)
  · obtain ⟨g, hg, rfl⟩ := List.mem_map.1 hglobal
    exact .inl (List.mem_map_of_mem (List.mem_filter.1 hg).1)

/-- Where every reference resolves, what is alive is a symbol. -/
theorem Resolved.hasSymbol_of_alive (hresolved : m.Resolved) {name : String} (h : m.Alive name) :
    m.hasSymbol name := by
  rcases h.root_or_needed with hroot | ⟨source, -, hneeds⟩
  · exact hasSymbol_of_mem_roots hroot
  · cases hneeds with
    | body hf hmem => exact hresolved name (mem_references_iff.2 (.inl ⟨_, hf, hmem⟩))
    | value hg hmem => exact hresolved name (mem_references_iff.2 (.inr ⟨_, hg, hmem⟩))
    | owned hg _ => exact hasSymbol_iff.2 (.inl (List.mem_map_of_mem hg))

/-- What is alive refers to nothing dead. -/
theorem Resolved.withoutDead (h : m.Unambiguous) (hresolved : m.Resolved) :
    m.withoutDead.Resolved := by
  intro name hname
  rw [hasSymbol_withoutDead h]
  rcases mem_references_iff.1 hname with ⟨f, hf, hmem⟩ | ⟨g, hg, hmem⟩
  · obtain ⟨hf, halive⟩ := (mem_functions_withoutDead h).1 hf
    exact ⟨hresolved name (mem_references_iff.2 (.inl ⟨f, hf, hmem⟩)),
      halive.needs (.body hf hmem)⟩
  · obtain ⟨hg, halive⟩ := (mem_globals_withoutDead h).1 hg
    exact ⟨hresolved name (mem_references_iff.2 (.inr ⟨g, hg, hmem⟩)),
      halive.needs (.value hg hmem)⟩

/-! ### Stripping declarations -/

/-- The functions that are left are the definitions and what is referred to. -/
theorem mem_functions_stripDeadPrototypes {f : Function} :
    f ∈ m.stripDeadPrototypes.functions
      ↔ f ∈ m.functions ∧ (f.body.isSome ∨ f.name ∈ m.references) := by
  simp [Module.stripDeadPrototypes, Function.isDeclaration, List.mem_filter]

/-- Stripping that deletes nothing leaves the module as it is. -/
theorem stripDeadPrototypes_eq_self
    (h : m.stripDeadPrototypes.functions.length = m.functions.length) :
    m.stripDeadPrototypes = m := by
  have hfunctions : m.stripDeadPrototypes.functions = m.functions :=
    List.filter_sublist.eq_of_length h
  calc m.stripDeadPrototypes
      = { m with functions := m.stripDeadPrototypes.functions } := rfl
    _ = m := by rw [hfunctions]

/-- Stripping makes no names ambiguous. -/
theorem Unambiguous.stripDeadPrototypes (h : m.Unambiguous) :
    m.stripDeadPrototypes.Unambiguous where
  functions := h.functions.sublist (List.filter_sublist.map _)
  globals := h.globals
  disjoint := fun name hf hg => h.disjoint name ((List.filter_sublist.map _).subset hf) hg

/-- Stripping deletes nothing that is referred to. -/
theorem Resolved.stripDeadPrototypes (hresolved : m.Resolved) :
    m.stripDeadPrototypes.Resolved := by
  intro name hname
  have hname : name ∈ m.references := by
    rcases mem_references_iff.1 hname with ⟨f, hf, hmem⟩ | hglobal
    · have hf := (mem_functions_stripDeadPrototypes.1 hf).1
      exact mem_references_iff.2 (.inl ⟨f, hf, hmem⟩)
    · exact mem_references_iff.2 (.inr hglobal)
  rcases hasSymbol_iff.1 (hresolved name hname) with hglobal | hfunction
  · exact hasSymbol_iff.2 (.inl hglobal)
  · obtain ⟨f, hf, rfl⟩ := List.mem_map.1 hfunction
    exact hasSymbol_iff.2 (.inr (List.mem_map_of_mem
      (mem_functions_stripDeadPrototypes.2 ⟨hf, .inr hname⟩)))

end Module

end SourceCoverage
