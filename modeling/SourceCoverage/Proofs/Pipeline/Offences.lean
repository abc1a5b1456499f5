import SourceCoverage.Proofs.Pipeline.Caching
import SourceCoverage.Proofs.Pipeline.Verification

/-!
# Offences That Are There

Verification stops at the first offence that it comes across, and which one that is depends on the
order in which it goes through the reference graph. Nothing else does. What an offence is, is said
here of the module alone, without the graph and without an order: a module *commits* an offence if
a function or a global variable of the right name shows it. A module that commits none is well
formed, and in any order verification fails exactly for the others, with an offence that they
commit.

The graph is keyed by names and put together from analyses that may be at hand already. Where names
are not ambiguous it has an entry for each symbol, and coherent analyses do not change it.

## Main results

* `Module.wellFormed_iff_forall_not_commits`: well formed modules are those without an offence.
* `Module.commits_of_offence?`: an offence that is found is one that the module commits.
* `PassAction.verify_exact`: verification in any order.
-/

namespace SourceCoverage

namespace Module

variable {m : Module}

/-- Whether an offence **is really there** in a module. -/
inductive Commits (m : Module) : Offence → Prop
  | body {f : Function} {target : String} (hf : f ∈ m.functions) (htarget : target ∈ f.references)
      (hmissing : ¬m.hasSymbol target) : Commits m (.undefinedSymbol f.name target)
  | value {g : Global} {target : String} (hg : g ∈ m.globals)
      (htarget : target ∈ g.definition.value.references) (hmissing : ¬m.hasSymbol target) :
      Commits m (.undefinedSymbol g.name target)
  | increment {f : Function} {callee : String} {increment : Increment} (hf : f ∈ m.functions)
      (hcall : .call callee (some increment) ∈ f.instructions) (hcallee : ¬m.hasIntrinsic callee) :
      Commits m (.notIntrinsic f.name callee)
  | terminator {f : Function} {body : List Instruction} (hf : f ∈ m.functions)
      (hbody : f.body = some body) (hlast : body.getLast? ≠ some .ret) :
      Commits m (.noTerminator f.name)

/-- **The well formed modules** are those that commit no offence. -/
theorem wellFormed_iff_forall_not_commits : m.WellFormed ↔ ∀ offence, ¬m.Commits offence := by
  constructor
  · rintro ⟨hresolved, hintrinsic, hterminated⟩ offence hcommits
    cases hcommits with
    | body hf htarget hmissing =>
        exact hmissing (hresolved _ (mem_references_iff.2 (.inl ⟨_, hf, htarget⟩)))
    | value hg htarget hmissing =>
        exact hmissing (hresolved _ (mem_references_iff.2 (.inr ⟨_, hg, htarget⟩)))
    | increment hf hcall hcallee => exact hcallee (hintrinsic _ hf _ _ hcall)
    | terminator hf hbody hlast => exact hlast (hterminated _ hf _ hbody)
  · intro hnone
    refine ⟨fun target htarget => ?_, fun f hf callee increment hcall => ?_,
      fun f hf body hbody => ?_⟩
    · refine Decidable.by_contra fun hmissing => ?_
      rcases mem_references_iff.1 htarget with ⟨f, hf, htarget⟩ | ⟨g, hg, htarget⟩
      · exact hnone _ (.body hf htarget hmissing)
      · exact hnone _ (.value hg htarget hmissing)
    · exact Decidable.by_contra fun hcallee => hnone _ (.increment hf hcall hcallee)
    · exact Decidable.by_contra fun hlast => hnone _ (.terminator hf hbody hlast)

/-! ### What is found -/

/-- An offence that is found in a function is there. -/
theorem commits_of_functionOffence? {f : Function} {offence : Offence} (hf : f ∈ m.functions)
    (h : m.functionOffence? f = some offence) : m.Commits offence := by
  rw [functionOffence?, Option.or_eq_some_iff] at h
  rcases h with hfound | ⟨-, hlast⟩
  · obtain ⟨i, hi, hoffence⟩ := List.exists_of_findSome?_eq_some hfound
    cases i with
    | call callee increment =>
        cases increment with
        | none => cases hoffence
        | some increment =>
            rw [instructionOffence?] at hoffence
            split at hoffence
            · cases hoffence
            · next hcallee =>
                obtain rfl := Option.some.inj hoffence
                exact .increment hf hi hcallee
    | atomicAdd _ _ => cases hoffence
    | loadAddStore _ _ => cases hoffence
    | ret => cases hoffence
  · cases hbody : f.body with
    | none => simp [hbody] at hlast
    | some body =>
        simp only [hbody] at hlast
        split at hlast
        · cases hlast
        · next hlast' =>
            obtain rfl := Option.some.inj hlast
            exact .terminator hf hbody hlast'

/-- A dangling reference that is found in the graph, or in the same entries in another order, is
there. -/
theorem commits_of_danglingOffence? (h : m.Unambiguous) {entry : String × List String}
    {offence : Offence} (hentry : entry ∈ m.referenceGraph)
    (hoffence : m.danglingOffence? entry = some offence) : m.Commits offence := by
  obtain ⟨target, hfound, rfl⟩ := Option.map_eq_some_iff.1 hoffence
  have htarget := List.mem_of_find?_eq_some hfound
  have hmissing : ¬m.hasSymbol target := by simpa using List.find?_some hfound
  rw [referenceGraph_eq h] at hentry
  rcases List.mem_append.1 hentry with hentry | hentry
  · obtain ⟨f, hf, rfl⟩ := List.mem_map.1 hentry
    exact .body hf htarget hmissing
  · obtain ⟨g, hg, rfl⟩ := List.mem_map.1 hentry
    exact .value hg htarget hmissing

variable {graph : ReferenceGraph}

/-- **Whichever offence is found first, it is there.** -/
theorem commits_of_offence? (h : m.Unambiguous) (hgraph : graph.Perm m.referenceGraph)
    {offence : Offence} (hoffence : m.offence? graph = some offence) : m.Commits offence := by
  rw [offence?, Option.or_eq_some_iff] at hoffence
  rcases hoffence with hfound | ⟨-, hfound⟩
  · obtain ⟨entry, hentry, hdangling⟩ := List.exists_of_findSome?_eq_some hfound
    exact commits_of_danglingOffence? h (hgraph.mem_iff.1 hentry) hdangling
  · obtain ⟨f, hf, hfunction⟩ := List.exists_of_findSome?_eq_some hfound
    exact commits_of_functionOffence? hf hfunction

/-- Whether an offence is found does not depend on the order of the graph. -/
theorem offence?_eq_none_iff_of_perm (hgraph : graph.Perm m.referenceGraph) :
    m.offence? graph = none ↔ m.offence? m.referenceGraph = none := by
  have hdangling : graph.findSome? m.danglingOffence? = none
      ↔ m.referenceGraph.findSome? m.danglingOffence? = none := by
    simp only [List.findSome?_eq_none_iff, hgraph.mem_iff]
  rw [offence?, offence?, Option.or_eq_none_iff, Option.or_eq_none_iff, hdangling]

end Module

/-! ### Verification in any order -/

namespace PassAction

/-- Verification that goes through the reference graph in an order of its own. -/
def verifyIn (arrange : ReferenceGraph → ReferenceGraph) : PassAction Unit := do
  let graph ← referenceGraph
  match (← getModule).offence? (arrange graph) with
  | none => return ()
  | some offence => throw (.verification offence.message)

/-- Verification goes through the graph in the order of its entries. -/
theorem verifyIn_id : verifyIn id = verify := rfl

/-- Verification ends with the first offence that it comes across. -/
theorem verifyIn_run {s : PassState} (hcoherent : s.analyses.Coherent s.module)
    (arrange : ReferenceGraph → ReferenceGraph) : ∃ s', verifyIn arrange s =
      match s.module.offence? (arrange s.module.referenceGraph) with
      | none => .ok () s'
      | some offence => .error (.verification offence.message) s' := by
  refine ⟨{ s with analyses := (s.analyses.referenceGraph s.module).2 }, ?_⟩
  rw [verifyIn, bind_of_ok (referenceGraph_run hcoherent), getModule_bind]
  dsimp only
  cases s.module.offence? (arrange s.module.referenceGraph) with
  | none => rfl
  | some offence => rfl

/-- **Verification is exact**, in whatever order it goes through the graph and whatever coherent
analyses are at hand. On a module without ambiguous names it succeeds exactly if the module is well
formed, and if it fails, it does so with the text of an offence that is really there. The order of
the entries is the one of verification as it is defined. -/
theorem verify_exact {s : PassState} (h : s.module.Unambiguous)
    (hcoherent : s.analyses.Coherent s.module) {arrange : ReferenceGraph → ReferenceGraph}
    (harrange : ∀ graph, (arrange graph).Perm graph) :
    verify = verifyIn id ∧
    ((∃ s', verifyIn arrange s = .ok () s') ↔ s.module.WellFormed) ∧
    ∀ e s', verifyIn arrange s = .error e s' →
      ∃ offence, s.module.Commits offence ∧ e = .verification offence.message := by
  obtain ⟨s₁, hrun⟩ := verifyIn_run hcoherent arrange
  have hgraph := harrange s.module.referenceGraph
  have hexact : s.module.offence? (arrange s.module.referenceGraph) = none
      ↔ s.module.WellFormed :=
    (Module.offence?_eq_none_iff_of_perm hgraph).trans (Module.offence?_eq_none_iff h)
  refine ⟨verifyIn_id.symm, ?_⟩
  rw [← hexact, hrun]
  cases hoffence : s.module.offence? (arrange s.module.referenceGraph) with
  | none => exact ⟨iff_of_true ⟨s₁, rfl⟩ rfl, nofun⟩
  | some offence =>
      refine ⟨iff_of_false nofun nofun, fun e s' herror => ?_⟩
      obtain ⟨rfl, -⟩ := EStateM.Result.error.inj herror
      exact ⟨offence, Module.commits_of_offence? h hgraph hoffence, rfl⟩

/-- A module of a function and a variable that both refer to something that is missing. -/
def danglingModule : Module where
  name := "m"
  functions := [⟨"main", .externalLinkage, some [.call "absent" none, .ret], false⟩]
  globals := [⟨{ name := "table", value := .address "nowhere" }, none⟩]

/-- Forwards, verification fails for the function, and backwards for the variable. -/
theorem verify_exact_danglingModule :
    danglingModule.Unambiguous ∧ Analyses.Coherent danglingModule {} ∧
    (∀ graph : ReferenceGraph, graph.reverse.Perm graph) ∧ ¬danglingModule.WellFormed ∧
    (∃ s', verifyIn id { module := danglingModule }
      = .error (.verification "`main` refers to undefined symbol `absent`") s') ∧
    (∃ s', verifyIn List.reverse { module := danglingModule }
      = .error (.verification "`table` refers to undefined symbol `nowhere`") s') ∧
    ∃ offence, danglingModule.Commits offence ∧
      PipelineError.verification "`table` refers to undefined symbol `nowhere`"
        = .verification offence.message := by
  have hnames : danglingModule.Unambiguous := ⟨by decide, by decide, by decide⟩
  have hcoherent : Analyses.Coherent danglingModule {} := .void _
  have hforwards : ∃ s', verifyIn id { module := danglingModule }
      = .error (.verification "`main` refers to undefined symbol `absent`") s' := ⟨_, rfl⟩
  have hbackwards : ∃ s', verifyIn List.reverse { module := danglingModule }
      = .error (.verification "`table` refers to undefined symbol `nowhere`") s' := ⟨_, rfl⟩
  have hreversed : ∀ graph : ReferenceGraph, (List.reverse graph).Perm graph := List.reverse_perm
  obtain ⟨-, hsucceeds, hfails⟩ :=
    verify_exact (s := { module := danglingModule }) hnames hcoherent hreversed
  obtain ⟨s', hrun⟩ := hbackwards
  refine ⟨hnames, hcoherent, hreversed, fun hwell => ?_, hforwards, ⟨s', hrun⟩,
    hfails _ s' hrun⟩
  obtain ⟨t, ht⟩ := hsucceeds.2 hwell
  cases hrun.symm.trans ht

end PassAction

end SourceCoverage
