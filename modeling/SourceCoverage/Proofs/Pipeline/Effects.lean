import SourceCoverage.Pipeline.Execution
import SourceCoverage.Proofs.Pipeline.Liveness
import SourceCoverage.Proofs.Results

/-!
# What Passes Do to a Module

A pass works on a state that also holds the analyses at hand and the log. Neither has a say in
what becomes of the module: the analyses at hand are *coherent*, that is, they are what would be
computed anew, and they stay so from pass to pass, because a pass that changes the module makes
them void. So every pass has an *effect*, a function of the module alone, and a run of passes has
the effects of its passes, one after another.

## Main results

* `Analyses.referenceGraph_spec`: coherent analyses give the reference graph of the module.
* `Pass.performs`: a pass has its effect.
* `PassAction.runPasses_spec`: a run has the effects of its passes.
-/

namespace SourceCoverage

/-! ### Coherent analyses -/

/-- What is at hand is what would be computed from the module. -/
structure Analyses.Coherent (m : Module) (a : Analyses) : Prop where
  graph : ∀ graph, a.graph = some graph → graph = m.referenceGraph
  functions : ∀ name references,
    a.functions.lookup name = some references → references = m.functionReferences name

namespace Analyses

variable {m : Module} {a : Analyses}

/-- With nothing at hand, nothing is wrong. -/
theorem Coherent.void (stats : RunStats) : Coherent m { stats := stats } where
  graph := fun _ h => by simp at h
  functions := fun _ _ h => by simp at h

/-- What is counted does not matter. -/
theorem Coherent.withStats (h : a.Coherent m) (stats : RunStats) :
    Coherent m { a with stats } where
  graph := h.graph
  functions := h.functions

/-- The references of a function, at hand or not, and what is at hand thereafter. -/
theorem functionReferences_spec (h : a.Coherent m) (name : String) :
    (a.functionReferences m name).1 = m.functionReferences name ∧
      (a.functionReferences m name).2.Coherent m := by
  rw [functionReferences]
  cases hlookup : a.functions.lookup name with
  | some references => exact ⟨h.functions name references hlookup, h.withStats _⟩
  | none =>
      refine ⟨rfl, h.graph, fun other references hother => ?_⟩
      rw [List.lookup_cons] at hother
      by_cases heq : other = name
      · subst heq
        simpa using hother.symm
      · rw [beq_false_of_ne heq] at hother
        exact h.functions other references hother

/-- The functions put into a graph, with their references at hand or not. -/
theorem insertFunctions_spec (h : a.Coherent m) (functions : List Function)
    (graph : ReferenceGraph) :
    (insertFunctions m functions graph a).1
        = functions.foldl (fun graph f => graph.insert f.name (m.functionReferences f.name)) graph ∧
      (insertFunctions m functions graph a).2.Coherent m := by
  induction functions generalizing graph a with
  | nil => exact ⟨rfl, h⟩
  | cons f functions ih =>
      obtain ⟨hreferences, hcoherent⟩ := functionReferences_spec h f.name
      rw [insertFunctions, List.foldl_cons, ← hreferences]
      exact ih hcoherent _

/-- **Coherent analyses give the graph of the module**, and stay coherent. -/
theorem referenceGraph_spec (h : a.Coherent m) :
    (a.referenceGraph m).1 = m.referenceGraph ∧ (a.referenceGraph m).2.Coherent m := by
  rw [referenceGraph]
  cases hgraph : a.graph with
  | some graph => exact ⟨h.graph graph hgraph, h.withStats _⟩
  | none =>
      obtain ⟨hinsert, hcoherent⟩ := insertFunctions_spec h m.functions []
      have heq : m.insertGlobals (insertFunctions m m.functions [] a).1 = m.referenceGraph := by
        rw [hinsert, Module.referenceGraph]
      exact ⟨heq, fun _ hsome => (Option.some.inj hsome).symm.trans heq, hcoherent.functions⟩

end Analyses

/-! ### Lowering as a function of the module -/

namespace Module

/-- The module with what the first increment of a function's counters demands, and the name that
the increment's variable holds. -/
def profileFirst (m : Module) (use : Increment) : Except PipelineError (Module × ProfiledName) :=
  match m.bytes? use.nameVariable with
  | none =>
    .error (.backend s!"increment refers to missing name variable `{use.nameVariable}`")
  | some data =>
    .ok (m.profile (Text.ofDamagedUtf8 data) use, ⟨use.nameVariable, Text.ofDamagedUtf8 data⟩)

/-- The module with what the first increments of all functions' counters demand. -/
def profileAll (m : Module) : List Increment → Except PipelineError (Module × List ProfiledName)
  | [] => .ok (m, [])
  | use :: uses =>
    match m.profileFirst use with
    | .error e => .error e
    | .ok (m, name) => (m.profileAll uses).map fun (m, names) => (m, name :: names)

/-- Several uses are provided for exactly if the first one refers to bytes, and the others are
provided for after it. -/
theorem profileAll_cons_eq_ok_iff {m m' : Module} {use : Increment} {uses : List Increment}
    {profiled : List ProfiledName} : m.profileAll (use :: uses) = .ok (m', profiled) ↔
      ∃ data others, m.bytes? use.nameVariable = some data ∧
        (m.profile (Text.ofDamagedUtf8 data) use).profileAll uses = .ok (m', others) ∧
        ⟨use.nameVariable, Text.ofDamagedUtf8 data⟩ :: others = profiled := by
  rw [profileAll, profileFirst]
  cases m.bytes? use.nameVariable with
  | none => simp
  | some data => simp [map_eq_ok_iff]

/-- The module with its increments lowered, if the name variables are there. -/
def lower (m : Module) (lowering : Lowering) : Except PipelineError Module :=
  if m.increments = [] then .ok m
  else
    (m.profileAll (firstUses m.increments)).map fun (m, profiled) =>
      (m.lowerBodies lowering profiled).foldNames profiled

end Module

/-! ### The effects of passes -/

/-- What a pass makes of a module. -/
def Pass.effect : Pass → Module → Except PipelineError Module
  | .lowerIncrements lowering, m => m.lower lowering
  | .removeDeadSymbols, m => .ok m.withoutDead
  | .stripDeadPrototypes, m => .ok m.stripDeadPrototypes
  | .optimize .O0, m => .ok m
  | .optimize _, m => .ok m.withoutDead.stripDeadPrototypes
  | .verify, m =>
    match m.offence? m.referenceGraph with
    | none => .ok m
    | some offence => .error (.verification offence.message)
  | .noOp, m => .ok m

namespace PassAction

/-- An action works as a function of the module says, as far as the module, the answer and the
error go, and leaves the analyses alone. -/
structure Acts {α : Type} (action : PassAction α)
    (effect : Module → Except PipelineError (Module × α)) : Prop where
  ok : ∀ (s : PassState) (m : Module) (a : α), effect s.module = .ok (m, a) →
    ∃ log, action s = .ok a { s with module := m, log }
  error : ∀ (s : PassState) (e : PipelineError), effect s.module = .error e →
    ∃ s', action s = .error e s'

/-- A pass performs a change of the module: from coherent analyses it succeeds and fails as the
change does, and if it says that it left the module alone, the analyses are coherent still. -/
structure Performs (action : PassAction Change)
    (effect : Module → Except PipelineError Module) : Prop where
  ok : ∀ (s : PassState) (m : Module), s.analyses.Coherent s.module → effect s.module = .ok m →
    ∃ change s', action s = .ok change s' ∧ s'.module = m ∧
      (change = .unchanged → s'.analyses.Coherent m)
  error : ∀ (s : PassState) (e : PipelineError), s.analyses.Coherent s.module →
    effect s.module = .error e → ∃ s', action s = .error e s'

/-- What the first increment demands is added as the function of the module says. -/
theorem acts_profileFirst (use : Increment) : Acts (profileFirst use) (·.profileFirst use) where
  ok := fun s m name h => by
    rw [Module.profileFirst] at h
    cases hbytes : s.module.bytes? use.nameVariable with
    | none => simp [hbytes] at h
    | some data =>
        rw [hbytes] at h
        obtain ⟨rfl, rfl⟩ := Prod.mk.inj (Except.ok.inj h)
        rw [profileFirst, getModule_bind]
        simp only [hbytes]
        by_cases hhash : functionHash (utf8 (Text.ofDamagedUtf8 data)) ≠ use.functionHash
        · exact ⟨_, by rw [if_pos hhash]; rfl⟩
        · exact ⟨s.log, by rw [if_neg hhash]; rfl⟩
  error := fun s e h => by
    rw [Module.profileFirst] at h
    cases hbytes : s.module.bytes? use.nameVariable with
    | some data => simp [hbytes] at h
    | none =>
        rw [hbytes] at h
        obtain rfl := Except.error.inj h
        refine ⟨s, ?_⟩
        rw [profileFirst, getModule_bind]
        simp only [hbytes]
        rfl

/-- What all first increments demand is added as the function of the module says. -/
theorem acts_profileAll (uses : List Increment) : Acts (profileAll uses) (·.profileAll uses) := by
  induction uses with
  | nil =>
      refine ⟨fun s m names h => ?_, fun s e h => by simp [Module.profileAll] at h⟩
      obtain ⟨rfl, rfl⟩ := Prod.mk.inj (Except.ok.inj h)
      exact ⟨s.log, rfl⟩
  | cons use uses ih =>
      have hcons : profileAll (use :: uses) = (do
          let name ← profileFirst use
          let names ← profileAll uses
          return name :: names) := by
        rw [profileAll, List.mapM_cons]
        rfl
      rw [hcons]
      refine ⟨fun s m names h => ?_, fun s e h => ?_⟩
      · rw [Module.profileAll] at h
        cases hfirst : s.module.profileFirst use with
        | error e => simp [hfirst] at h
        | ok first =>
            obtain ⟨m₁, name⟩ := first
            rw [hfirst] at h
            obtain ⟨⟨m₂, others⟩, hothers, heq⟩ := map_eq_ok_iff.1 h
            obtain ⟨rfl, rfl⟩ := Prod.mk.inj heq
            obtain ⟨log₁, hrun₁⟩ := (acts_profileFirst use).ok s m₁ name hfirst
            obtain ⟨log₂, hrun₂⟩ := ih.ok { s with module := m₁, log := log₁ } m₂ others hothers
            refine ⟨log₂, ?_⟩
            rw [bind_of_ok hrun₁, bind_of_ok hrun₂]
            rfl
      · rw [Module.profileAll] at h
        cases hfirst : s.module.profileFirst use with
        | error e' =>
            rw [hfirst] at h
            obtain ⟨s', hrun⟩ := (acts_profileFirst use).error s e' hfirst
            refine ⟨s', ?_⟩
            rw [bind_of_error hrun, Except.error.inj h]
        | ok first =>
            obtain ⟨m₁, name⟩ := first
            rw [hfirst] at h
            obtain ⟨log₁, hrun₁⟩ := (acts_profileFirst use).ok s m₁ name hfirst
            obtain ⟨s', hrun₂⟩ :=
              ih.error { s with module := m₁, log := log₁ } e (map_eq_error_iff.1 h)
            refine ⟨s', ?_⟩
            rw [bind_of_ok hrun₁, bind_of_error hrun₂]

/-- Without increments, lowering leaves everything alone, and says so. -/
theorem lowerIncrements_of_eq_nil (lowering : Lowering) {s : PassState}
    (hnone : s.module.increments = []) : lowerIncrements lowering s = .ok .unchanged s := by
  rw [lowerIncrements, getModule_bind, if_pos hnone]
  rfl

/-- Where the increments of a module can be lowered, lowering does so, whatever analyses are at
hand, and leaves these alone. It says that it left the module alone exactly if there are none. -/
theorem lowerIncrements_run {lowering : Lowering} {s : PassState} {m : Module}
    (h : s.module.lower lowering = .ok m) :
    ∃ change s', lowerIncrements lowering s = .ok change s' ∧ s'.module = m ∧
      s'.analyses = s.analyses ∧ (change = .unchanged ↔ s.module.increments = []) := by
  unfold Module.lower at h
  by_cases hnone : s.module.increments = []
  · rw [if_pos hnone] at h
    exact ⟨.unchanged, s, lowerIncrements_of_eq_nil lowering hnone, Except.ok.inj h, rfl,
      iff_of_true rfl hnone⟩
  · rw [if_neg hnone] at h
    obtain ⟨⟨m', profiled⟩, hall, rfl⟩ := map_eq_ok_iff.1 h
    obtain ⟨log, hrun⟩ := (acts_profileAll _).ok s m' profiled hall
    let lowered := (m'.lowerBodies lowering profiled).foldNames profiled
    refine ⟨.changed, ⟨lowered, s.analyses, log.push (.incrementsLowered lowered.name
      s.module.increments.length profiled.length lowering.atomic)⟩, ?_, rfl, rfl,
      iff_of_false nofun hnone⟩
    rw [lowerIncrements, getModule_bind, if_neg hnone, bind_of_ok hrun]
    rfl

/-- Lowering has its effect. -/
theorem performs_lowerIncrements (lowering : Lowering) :
    Performs (lowerIncrements lowering) (·.lower lowering) := by
  refine ⟨fun s m hcoherent h => ?_, fun s e hcoherent h => ?_⟩
  · obtain ⟨change, s', hrun, hmodule, hanalyses, hchange⟩ := lowerIncrements_run h
    refine ⟨change, s', hrun, hmodule, fun hunchanged => ?_⟩
    rw [Module.lower, if_pos (hchange.1 hunchanged)] at h
    rw [hanalyses, ← Except.ok.inj h]
    exact hcoherent
  · unfold Module.lower at h
    by_cases hnone : s.module.increments = []
    · simp [if_pos hnone] at h
    · rw [if_neg hnone] at h
      obtain ⟨s', hrun⟩ := (acts_profileAll _).error s e (map_eq_error_iff.1 h)
      refine ⟨s', ?_⟩
      rw [lowerIncrements, getModule_bind, if_neg hnone, bind_of_error hrun]

/-- From coherent analyses, a pass is given the reference graph of the module. -/
theorem referenceGraph_run {s : PassState} (h : s.analyses.Coherent s.module) :
    referenceGraph s = .ok s.module.referenceGraph
      { s with analyses := (s.analyses.referenceGraph s.module).2 } := by
  rw [← (Analyses.referenceGraph_spec h).1]
  rfl

/-- From coherent analyses, deleting the dead symbols leads to the module without them. It says that
it left the module alone exactly if there are none, and then the analyses are coherent still. -/
theorem removeDeadSymbols_run {s : PassState} (h : s.analyses.Coherent s.module) :
    ∃ change s', removeDeadSymbols s = .ok change s' ∧ s'.module = s.module.withoutDead ∧
      (change = .unchanged ↔ s'.module = s.module) ∧
      (change = .unchanged → s'.analyses.Coherent s'.module) := by
  let analyses := (s.analyses.referenceGraph s.module).2
  let removed := s.module.symbolCount - s.module.withoutDead.symbolCount
  let dead := s.module.functionNames.filter (· ∉ s.module.liveSymbols s.module.referenceGraph)
  have hrun : removeDeadSymbols s =
      (if removed = 0 then return .unchanged
      else do
        report (.deadSymbolsRemoved s.module.name removed dead)
        return .changed : PassAction Change)
        { s with module := s.module.withoutDead, analyses } := by
    rw [removeDeadSymbols, bind_of_ok (referenceGraph_run h), getModule_bind, setModule_bind]
    rfl
  rw [hrun]
  by_cases hremoved : removed = 0
  · have hsame : s.module.withoutDead = s.module := Module.restrict_eq_self hremoved
    rw [if_pos hremoved]
    refine ⟨.unchanged, _, rfl, rfl, iff_of_true rfl hsame, fun _ => ?_⟩
    rw [hsame]
    exact (Analyses.referenceGraph_spec h).2
  · have hdiffers : s.module.withoutDead ≠ s.module := fun hsame =>
      hremoved (by simp only [removed, hsame, Nat.sub_self])
    rw [if_neg hremoved]
    exact ⟨.changed, _, rfl, rfl, iff_of_false nofun hdiffers, nofun⟩

/-- Deleting the dead symbols has its effect. -/
theorem performs_removeDeadSymbols : Performs removeDeadSymbols (.ok ·.withoutDead) := by
  refine ⟨fun s m hcoherent h => ?_, fun s e hcoherent h => by cases h⟩
  obtain rfl := Except.ok.inj h
  obtain ⟨change, s', hrun, hmodule, -, hkept⟩ := removeDeadSymbols_run hcoherent
  exact ⟨change, s', hrun, hmodule, hmodule ▸ hkept⟩

/-- Stripping has its effect. -/
theorem performs_stripDeadPrototypes :
    Performs stripDeadPrototypes (.ok ·.stripDeadPrototypes) := by
  refine ⟨fun s m hcoherent h => ?_, fun s e hcoherent h => by cases h⟩
  obtain rfl := Except.ok.inj h
  refine ⟨_, _, rfl, rfl, fun hchange => ?_⟩
  by_cases hlength : s.module.stripDeadPrototypes.functions.length = s.module.functions.length
  · rw [Module.stripDeadPrototypes_eq_self hlength]
    exact hcoherent
  · rw [if_neg hlength] at hchange
    cases hchange

/-- What an action does to the analyses and the log keeps the analyses coherent: it settles a
change as the pass that made it says. -/
theorem settle_spec {change : Change} {s : PassState}
    (h : change = .unchanged → s.analyses.Coherent s.module) :
    ∃ s', settle change s = .ok () s' ∧ s'.module = s.module ∧ s'.analyses.Coherent s.module := by
  cases change with
  | unchanged => exact ⟨s, rfl, rfl, h rfl⟩
  | changed => exact ⟨_, rfl, rfl, .void _⟩

/-- Verification leaves the module alone, and finds its first offence. -/
theorem performs_verify :
    Performs (do verify; return .unchanged) (Pass.effect .verify) := by
  refine ⟨fun s m hcoherent h => ?_, fun s e hcoherent h => ?_⟩
  · obtain ⟨hgraph, hkept⟩ := Analyses.referenceGraph_spec hcoherent
    rw [Pass.effect] at h
    cases hoffence : s.module.offence? s.module.referenceGraph with
    | some offence => simp [hoffence] at h
    | none =>
        rw [hoffence] at h
        obtain rfl := Except.ok.inj h
        refine ⟨.unchanged, { s with analyses := (s.analyses.referenceGraph s.module).2 }, ?_, rfl,
          fun _ => hkept⟩
        rw [verify, bind_assoc, bind_of_ok (referenceGraph_run hcoherent), bind_assoc,
          getModule_bind]
        simp only [hoffence]
        rfl
  · obtain ⟨hgraph, -⟩ := Analyses.referenceGraph_spec hcoherent
    rw [Pass.effect] at h
    cases hoffence : s.module.offence? s.module.referenceGraph with
    | none => simp [hoffence] at h
    | some offence =>
        rw [hoffence] at h
        obtain rfl := Except.error.inj h
        refine ⟨{ s with analyses := (s.analyses.referenceGraph s.module).2 }, ?_⟩
        rw [verify, bind_assoc, bind_of_ok (referenceGraph_run hcoherent), bind_assoc,
          getModule_bind]
        simp only [hoffence]
        rfl

/-- The two deleting passes in a row. -/
theorem performs_delete :
    Performs (do settle (← removeDeadSymbols); stripDeadPrototypes)
      (.ok ·.withoutDead.stripDeadPrototypes) := by
  refine ⟨fun s m hcoherent h => ?_, fun s e hcoherent h => by cases h⟩
  obtain rfl := Except.ok.inj h
  obtain ⟨change₁, s₁, hrun₁, hmodule₁, hkept₁⟩ := performs_removeDeadSymbols.ok s _ hcoherent rfl
  obtain ⟨s₂, hrun₂, hmodule₂, hcoherent₂⟩ := settle_spec (hmodule₁ ▸ hkept₁)
  obtain ⟨change₃, s₃, hrun₃, hmodule₃, hkept₃⟩ :=
    performs_stripDeadPrototypes.ok s₂ _ (hmodule₂ ▸ hcoherent₂) rfl
  rw [hmodule₂, hmodule₁] at hmodule₃ hkept₃
  refine ⟨change₃, s₃, ?_, hmodule₃, hkept₃⟩
  rw [bind_of_ok hrun₁, bind_of_ok hrun₂, hrun₃]

/-- **Every pass has its effect.** -/
theorem performs (pass : Pass) : Performs (perform pass) pass.effect := by
  have hidle : Performs (return .unchanged) .ok := by
    refine ⟨fun s m hcoherent h => ?_, fun s e hcoherent h => by cases h⟩
    obtain rfl := Except.ok.inj h
    exact ⟨.unchanged, s, rfl, rfl, fun _ => hcoherent⟩
  cases pass with
  | lowerIncrements lowering => exact performs_lowerIncrements lowering
  | removeDeadSymbols => exact performs_removeDeadSymbols
  | stripDeadPrototypes => exact performs_stripDeadPrototypes
  | verify => exact performs_verify
  | noOp => exact hidle
  | optimize level =>
      cases level with
      | O0 => exact hidle
      | O1 => exact performs_delete
      | O2 => exact performs_delete
      | O3 => exact performs_delete
      | Os => exact performs_delete
      | Oz => exact performs_delete

end PassAction

/-! ### The effect of a run -/

/-- What passes make of a module, one after another. -/
def effectOf : List Pass → Module → Except PipelineError Module
  | [], m => .ok m
  | pass :: passes, m => pass.effect m >>= effectOf passes

namespace PassAction

/-- A pass that runs has its effect, and leaves coherent analyses. -/
theorem runPass_spec (pass : Pass) (s : PassState) (hcoherent : s.analyses.Coherent s.module) :
    (∀ m, pass.effect s.module = .ok m →
      ∃ s', runPass pass s = .ok () s' ∧ s'.module = m ∧ s'.analyses.Coherent m) ∧
    ∀ e, pass.effect s.module = .error e → ∃ s', runPass pass s = .error e s' := by
  let entered : PassState := { s with
    analyses := s.analyses.enterPass
    log := s.log.push (.runningPass pass.text s.module.name) }
  have hentered : entered.analyses.Coherent entered.module := hcoherent.withStats _
  have hrun : runPass pass s = (do settle (← perform pass) : PassAction Unit) entered := rfl
  rw [hrun]
  refine ⟨fun m h => ?_, fun e h => ?_⟩
  · obtain ⟨change, s₁, hrun₁, rfl, hkept⟩ := (performs pass).ok entered m hentered h
    obtain ⟨s₂, hrun₂, hmodule, hcoherent₂⟩ := settle_spec hkept
    refine ⟨s₂, ?_, hmodule, hcoherent₂⟩
    rw [bind_of_ok hrun₁, hrun₂]
  · obtain ⟨s₁, hrun₁⟩ := (performs pass).error entered e hentered h
    refine ⟨s₁, ?_⟩
    rw [bind_of_error hrun₁]

/-- **A run has the effects of its passes**, one after another. -/
theorem runPasses_spec (passes : List Pass) (s : PassState)
    (hcoherent : s.analyses.Coherent s.module) :
    (∀ m, effectOf passes s.module = .ok m →
      ∃ s', runPasses passes s = .ok () s' ∧ s'.module = m) ∧
    ∀ e, effectOf passes s.module = .error e → ∃ s', runPasses passes s = .error e s' := by
  induction passes generalizing s with
  | nil => exact ⟨fun m h => ⟨s, rfl, Except.ok.inj h⟩, fun e h => by cases h⟩
  | cons pass passes ih =>
      have hcons : runPasses (pass :: passes) s
          = (runPass pass >>= fun _ => runPasses passes) s := rfl
      rw [hcons, effectOf]
      obtain ⟨hok, herror⟩ := runPass_spec pass s hcoherent
      cases heffect : pass.effect s.module with
      | error e =>
          obtain ⟨s₁, hrun₁⟩ := herror e heffect
          refine ⟨fun m h => (nomatch h), fun e' h => ⟨s₁, ?_⟩⟩
          obtain rfl := Except.error.inj h
          rw [bind_of_error hrun₁]
      | ok m₁ =>
          obtain ⟨s₁, hrun₁, rfl, hcoherent₁⟩ := hok m₁ heffect
          obtain ⟨hok', herror'⟩ := ih s₁ hcoherent₁
          refine ⟨fun m h => ?_, fun e h => ?_⟩
          · obtain ⟨s₂, hrun₂, hmodule⟩ := hok' m h
            refine ⟨s₂, ?_, hmodule⟩
            rw [bind_of_ok hrun₁, hrun₂]
          · obtain ⟨s₂, hrun₂⟩ := herror' e h
            refine ⟨s₂, ?_⟩
            rw [bind_of_ok hrun₁, hrun₂]

end PassAction

/-- **A pipeline does to the module of a session what its passes do to a module.** -/
theorem Pipeline.run_spec (pipeline : Pipeline) (s : Session) :
    (∀ m, effectOf pipeline.passes s.module = .ok m →
      ∃ s', pipeline.run s = .ok () s' ∧ s'.module = m) ∧
    ∀ e, effectOf pipeline.passes s.module = .error e → ∃ s', pipeline.run s = .error e s' := by
  obtain ⟨hok, herror⟩ := PassAction.runPasses_spec pipeline.passes
    { module := s.module, log := s.log } (.void _)
  refine ⟨fun m h => ?_, fun e h => ?_⟩
  · obtain ⟨state, hrun, hmodule⟩ := hok m h
    refine ⟨{ s with
      module := state.module, lastRun := some state.analyses.stats, log := state.log }, ?_, hmodule⟩
    simp only [Pipeline.run, hrun]
  · obtain ⟨state, hrun⟩ := herror e h
    refine ⟨{ s with
      module := state.module, lastRun := some state.analyses.stats, log := state.log }, ?_⟩
    simp only [Pipeline.run, hrun]

end SourceCoverage
