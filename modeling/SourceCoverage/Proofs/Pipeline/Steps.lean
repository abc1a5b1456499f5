import SourceCoverage.Proofs.Pipeline.Folding

/-!
# The Steps of Passes

The effect of a pass says what becomes of the module where the pass succeeds. A pass that fails has
done a part of its work by then, and a run that fails ends in a module which no effect describes.
What all ends have in common is that the module was led there by *steps*, each of which makes the
variables of one profiled function, or folds the names once all are made, or deletes. So what every
step keeps is kept by every run of passes, wherever it ends.

## Main results

* `PassAction.steps_runPasses`: passes lead by steps to where they end.
* `Pipeline.run_steps`, `steps_of_effectOf`: so does a run, and so do the effects of passes.
* `Module.keeps_of_steps`: what every step keeps is kept.
-/

namespace SourceCoverage

open Relation

namespace Module

variable {m m' : Module}

/-- One step of a pass. -/
inductive PassStep : Module → Module → Prop
  /-- The variables of a function are made, as some increment demands. -/
  | profile {m : Module} {use : Increment} (function : String) :
      use ∈ m.increments → PassStep m (m.profile function use)
  /-- Bodies are lowered, and variables that increments refer to are folded into the names. -/
  | fold {m : Module} {profiled : List ProfiledName} (lowering : Lowering) :
      m.increments ≠ [] → (∀ p ∈ profiled, p.nameVariable ∈ m.nameVariables) →
      PassStep m ((m.lowerBodies lowering profiled).foldNames profiled)
  /-- Symbols are deleted, but none of the roots. -/
  | restrict {m : Module} {live : List String} : m.roots ⊆ live → PassStep m (m.restrict live)
  /-- Declarations that nothing refers to are deleted. -/
  | strip (m : Module) : PassStep m m.stripDeadPrototypes

/-! ### Bodies and increments -/

/-- Whether some body of a module has an instruction. -/
def Has (m : Module) (i : Instruction) : Prop := ∃ f ∈ m.functions, i ∈ f.instructions

/-- The increments of a module are those that its bodies have. -/
theorem mem_increments_iff_has {increment : Increment} :
    increment ∈ m.increments ↔ ∃ i, m.Has i ∧ i.increment? = some increment := by
  simp only [increments, Has, List.mem_flatMap, List.mem_filterMap]
  constructor
  · rintro ⟨f, hf, i, hi, hincrement⟩
    exact ⟨i, ⟨f, hf, hi⟩, hincrement⟩
  · rintro ⟨i, ⟨f, hf, hi⟩, hincrement⟩
    exact ⟨f, hf, i, hi, hincrement⟩

/-- What an increment is lowered to is none, if the variable is known that it refers to. -/
theorem increment?_lower {lowering : Lowering} {profiled : List ProfiledName} {i : Instruction}
    {increment : Increment} (h : (i.lower lowering profiled).increment? = some increment) :
    i.lower lowering profiled = i ∧ profiledFunction? profiled increment.nameVariable = none := by
  rw [Instruction.lower] at h ⊢
  cases hincrement : i.increment? with
  | none => simp [hincrement] at h
  | some own =>
      simp only [hincrement] at h ⊢
      cases hknown : profiledFunction? profiled own.nameVariable with
      | none =>
          simp only [hknown] at h ⊢
          obtain rfl := Option.some.inj (hincrement.symm.trans h)
          exact ⟨trivial, hknown⟩
      | some function =>
          simp only [hknown] at h
          split at h <;> cases h

/-- What bodies have after they were lowered. -/
theorem has_of_lowered {lowering : Lowering} {profiled : List ProfiledName}
    (hfunctions : m'.functions = m.functions.map fun f =>
      { f with body := f.body.map (·.map (·.lower lowering profiled)) })
    {i : Instruction} (h : m'.Has i) : ∃ old, m.Has old ∧ old.lower lowering profiled = i := by
  obtain ⟨f, hf, hi⟩ := h
  rw [hfunctions] at hf
  obtain ⟨g, hg, rfl⟩ := List.mem_map.1 hf
  rw [instructions_lowered] at hi
  obtain ⟨old, hold, rfl⟩ := List.mem_map.1 hi
  exact ⟨old, ⟨g, hg, hold⟩, rfl⟩

/-- **A step makes no increments.** -/
theorem PassStep.increments_subset (h : PassStep m m') : m'.increments ⊆ m.increments := by
  intro increment hincrement
  obtain ⟨i, ⟨f, hf, hi⟩, hsome⟩ := mem_increments_iff_has.1 hincrement
  rw [mem_increments_iff_has]
  cases h with
  | profile function _ =>
      rw [Module.profile, functions_putOwned, functions_putOwned] at hf
      exact ⟨i, ⟨f, hf, hi⟩, hsome⟩
  | fold lowering _ _ =>
      obtain ⟨old, hold, rfl⟩ := has_of_lowered (m := m) functions_foldNames ⟨f, hf, hi⟩
      obtain ⟨hsame, -⟩ := increment?_lower hsome
      exact ⟨old, hold, hsame ▸ hsome⟩
  | restrict _ => exact ⟨i, ⟨f, (List.mem_filter.1 hf).1, hi⟩, hsome⟩
  | strip => exact ⟨i, ⟨f, (List.mem_filter.1 hf).1, hi⟩, hsome⟩

/-- The variables that increments refer to after a step did so before. -/
theorem PassStep.nameVariables_subset (h : PassStep m m') : m'.nameVariables ⊆ m.nameVariables :=
  List.map_subset _ h.increments_subset

/-- **What every step keeps is kept** on the way to every end. -/
theorem keeps_of_steps {P : Module → Prop} (hstep : ∀ m m', PassStep m m' → P m → P m')
    (h : ReflTransGen PassStep m m') (hm : P m) : P m' := by
  induction h with
  | refl => exact hm
  | tail _ hlast ih => exact hstep _ _ hlast ih

/-- The traversal passes over no root. -/
theorem roots_subset_liveSymbols (graph : ReferenceGraph) : m.roots ⊆ m.liveSymbols graph :=
  fun _ hroot => (mem_reachFrom_iff (by simp)).2 (.inr ⟨_, hroot, .refl⟩)

/-- A first use is an increment of the module. -/
theorem mem_increments_of_mem_firstUses {use : Increment} (h : use ∈ firstUses m.increments) :
    use ∈ m.increments :=
  List.mem_of_find?_eq_some ((firstUses_spec m.increments).first use h)

/-- The names that are profiled are those of the variables of increments. -/
theorem mem_nameVariables_of_profileAll {profiled : List ProfiledName}
    (hok : m.profileAll (firstUses m.increments) = .ok (m', profiled)) {name : String} :
    name ∈ profiled.map (·.nameVariable) ↔ name ∈ m.nameVariables := by
  rw [nameVariables_profileAll hok, mem_map_firstUses_iff, nameVariables]

/-- **Lowering leaves no increments**, where it succeeds. -/
theorem increments_lower {lowering : Lowering} (hok : m.lower lowering = .ok m') :
    m'.increments = [] := by
  rw [lower] at hok
  by_cases hnone : m.increments = []
  · rw [if_pos hnone] at hok
    exact Except.ok.inj hok ▸ hnone
  · rw [if_neg hnone] at hok
    obtain ⟨⟨m₁, profiled⟩, hall, rfl⟩ := map_eq_ok_iff.1 hok
    refine List.eq_nil_iff_forall_not_mem.2 fun increment hincrement => ?_
    obtain ⟨i, hi, hsome⟩ := mem_increments_iff_has.1 hincrement
    have hfunctions := functions_profileAll hall
    obtain ⟨old, hold, rfl⟩ := has_of_lowered (m := m)
      (by rw [functions_foldNames, lowerBodies, hfunctions]) hi
    obtain ⟨hsame, hunknown⟩ := increment?_lower hsome
    have hmem : increment ∈ m.increments :=
      mem_increments_iff_has.2 ⟨old, hold, hsame ▸ hsome⟩
    -- Every variable that an increment refers to is among the profiled names.
    obtain ⟨p, hp, hname⟩ := List.mem_map.1
      ((mem_nameVariables_of_profileAll hall).2 (List.mem_map_of_mem hmem))
    rw [profiledFunction?, Option.map_eq_none_iff, List.find?_eq_none] at hunknown
    exact hunknown p hp (decide_eq_true hname)

end Module

/-! ### Operations of passes -/

namespace PassAction

open SourceCoverage.Module

variable {α β : Type}

/-- An operation that leads by steps to where it ends. -/
def Steps (action : PassAction α) : Prop :=
  ∀ s, ReflTransGen PassStep s.module (endOf (action s)).module

namespace Steps

/-- An operation that leaves the module alone. -/
theorem of_module_eq {action : PassAction α} (h : ∀ s, (endOf (action s)).module = s.module) :
    Steps action := fun s => (h s).symm ▸ ReflTransGen.refl

/-- **Operations in a row lead by steps** if each of them does. -/
theorem bind {first : PassAction α} {next : α → PassAction β} (h : Steps first)
    (hnext : ∀ a, Steps (next a)) : Steps (first >>= next) := by
  intro s
  have hfirst := h s
  cases hrun : first s with
  | ok a s' =>
      rw [hrun] at hfirst
      rw [bind_of_ok hrun]
      exact hfirst.trans (hnext a s')
  | error e s' =>
      rw [hrun] at hfirst
      rw [bind_of_error hrun]
      exact hfirst

end Steps

/-! ### Passes -/

/-- Making the variables of one function, for an increment of the module. -/
theorem profileFirst_steps {use : Increment} {s : PassState} (huse : use ∈ s.module.increments) :
    ReflTransGen PassStep s.module (endOf (profileFirst use s)).module ∧
      (endOf (profileFirst use s)).module.functions = s.module.functions := by
  rw [profileFirst, getModule_bind]
  cases s.module.bytes? use.nameVariable with
  | none => exact ⟨.refl, rfl⟩
  | some data =>
      let function := Text.ofDamagedUtf8 data
      let profiled : PassState := { s with module := s.module.profile function use }
      have hend : (endOf ((do
          if functionHash (utf8 function) ≠ use.functionHash then report (.hashDiffers function)
          return ⟨use.nameVariable, function⟩ : PassAction ProfiledName) profiled)).module
            = s.module.profile function use := by
        by_cases hhash : functionHash (utf8 function) ≠ use.functionHash
        · simp only [if_pos hhash]
          rfl
        · simp only [if_neg hhash]
          rfl
      have hfunctions : (s.module.profile function use).functions = s.module.functions := by
        rw [profile, functions_putOwned, functions_putOwned]
      exact ⟨hend ▸ .single (.profile function huse), hend ▸ hfunctions⟩

/-- Making the variables of several functions. -/
theorem profileAll_steps {uses : List Increment} {s : PassState}
    (huses : ∀ use ∈ uses, use ∈ s.module.increments) :
    ReflTransGen PassStep s.module (endOf (profileAll uses s)).module ∧
      (endOf (profileAll uses s)).module.functions = s.module.functions := by
  induction uses generalizing s with
  | nil => exact ⟨.refl, rfl⟩
  | cons use uses ih =>
      have hcons : profileAll (use :: uses) = (do
          let name ← profileFirst use
          let names ← profileAll uses
          return name :: names) := by
        rw [profileAll, List.mapM_cons]
        rfl
      obtain ⟨huse, hrest⟩ := List.forall_mem_cons.1 huses
      obtain ⟨hsteps, hfunctions⟩ := profileFirst_steps huse
      rw [hcons]
      cases hfirst : profileFirst use s with
      | error e s₁ =>
          rw [hfirst] at hsteps hfunctions
          rw [bind_of_error hfirst]
          exact ⟨hsteps, hfunctions⟩
      | ok name s₁ =>
          rw [hfirst] at hsteps hfunctions
          rw [bind_of_ok hfirst]
          replace hfunctions : s₁.module.functions = s.module.functions := hfunctions
          have hincrements : s₁.module.increments = s.module.increments := by
            rw [increments, hfunctions, increments]
          obtain ⟨hothers, hsame⟩ := ih (s := s₁) (hincrements ▸ hrest)
          have hend : (endOf ((do
              let names ← profileAll uses
              return name :: names : PassAction (List ProfiledName)) s₁)).module
                = (endOf (profileAll uses s₁)).module := by
            cases hall : profileAll uses s₁ with
            | error e s₂ => rw [bind_of_error hall]
            | ok names s₂ =>
                rw [bind_of_ok hall]
                rfl
          rw [hend]
          exact ⟨hsteps.trans hothers, hsame.trans hfunctions⟩

/-- **Lowering leads by steps to where it ends**, be it that a name variable is missing. -/
theorem steps_lowerIncrements (lowering : Lowering) : Steps (lowerIncrements lowering) := by
  intro s
  rw [lowerIncrements, getModule_bind]
  by_cases hnone : s.module.increments = []
  · rw [if_pos hnone]
    exact .refl
  · rw [if_neg hnone]
    obtain ⟨hsteps, hfunctions⟩ :=
      profileAll_steps (s := s) fun use => mem_increments_of_mem_firstUses
    cases hall : profileAll (firstUses s.module.increments) s with
    | error e s₁ =>
        rw [hall] at hsteps
        rw [bind_of_error hall]
        exact hsteps
    | ok profiled s₁ =>
        rw [hall] at hsteps hfunctions
        rw [bind_of_ok hall]
        replace hfunctions : s₁.module.functions = s.module.functions := hfunctions
        have hincrements : s₁.module.increments = s.module.increments := by
          rw [increments, hfunctions, increments]
        obtain ⟨m', heffect⟩ : ∃ m',
            s.module.profileAll (firstUses s.module.increments) = .ok (m', profiled) := by
          cases heffect : s.module.profileAll (firstUses s.module.increments) with
          | error e =>
              obtain ⟨s', hfail⟩ := (acts_profileAll _).error s e heffect
              cases hall.symm.trans hfail
          | ok made =>
              obtain ⟨m', names⟩ := made
              obtain ⟨log, hmade⟩ := (acts_profileAll _).ok s m' names heffect
              obtain ⟨rfl, -⟩ := EStateM.Result.ok.inj (hall.symm.trans hmade)
              exact ⟨m', rfl⟩
        have hnames : ∀ p ∈ profiled, p.nameVariable ∈ s₁.module.nameVariables := by
          intro p hp
          rw [nameVariables, hincrements]
          exact (mem_nameVariables_of_profileAll heffect).1 (List.mem_map_of_mem hp)
        exact hsteps.tail (.fold lowering (hincrements ▸ hnone) hnames)

/-- Deleting the dead symbols is one step. -/
theorem steps_removeDeadSymbols : Steps removeDeadSymbols := by
  intro s
  let analyses := (s.analyses.referenceGraph s.module).2
  let live := s.module.liveSymbols (s.analyses.referenceGraph s.module).1
  have hend : (endOf (removeDeadSymbols s)).module = s.module.restrict live := by
    have hgraph : referenceGraph s
        = .ok (s.analyses.referenceGraph s.module).1 { s with analyses } := rfl
    rw [removeDeadSymbols, bind_of_ok hgraph, getModule_bind, setModule_bind]
    split
    · rfl
    · rfl
  rw [hend]
  exact .single (.restrict (roots_subset_liveSymbols _))

/-- Deleting unused declarations is one step. -/
theorem steps_stripDeadPrototypes : Steps stripDeadPrototypes :=
  fun s => .single (.strip s.module)

/-- Verification leaves the module alone. -/
theorem steps_verify : Steps verify := by
  refine .of_module_eq fun s => ?_
  have hgraph : referenceGraph s = .ok (s.analyses.referenceGraph s.module).1
      { s with analyses := (s.analyses.referenceGraph s.module).2 } := rfl
  rw [verify, bind_of_ok hgraph, getModule_bind]
  cases s.module.offence? (s.analyses.referenceGraph s.module).1 with
  | none => rfl
  | some offence => rfl

/-- What is done after a change leaves the module alone. -/
theorem steps_settle (change : Change) : Steps (settle change) := by
  cases change with
  | unchanged => exact .of_module_eq fun _ => rfl
  | changed => exact .of_module_eq fun _ => rfl

/-- What a pass does leads by steps to where it ends. -/
theorem steps_perform (pass : Pass) : Steps (perform pass) := by
  have hidle : Steps (return Change.unchanged) := .of_module_eq fun _ => rfl
  have hdelete : Steps (do settle (← removeDeadSymbols); stripDeadPrototypes) :=
    steps_removeDeadSymbols.bind fun change =>
      (steps_settle change).bind fun _ => steps_stripDeadPrototypes
  cases pass with
  | lowerIncrements lowering => exact steps_lowerIncrements lowering
  | removeDeadSymbols => exact steps_removeDeadSymbols
  | stripDeadPrototypes => exact steps_stripDeadPrototypes
  | verify => exact steps_verify.bind fun _ => hidle
  | noOp => exact hidle
  | optimize level =>
      cases level with
      | O0 => exact hidle
      | O1 => exact hdelete
      | O2 => exact hdelete
      | O3 => exact hdelete
      | Os => exact hdelete
      | Oz => exact hdelete

/-- A pass that runs leads by steps to where it ends. -/
theorem steps_runPass (pass : Pass) : Steps (runPass pass) := by
  have hperform : Steps (do settle (← perform pass)) := (steps_perform pass).bind steps_settle
  exact fun s => hperform { s with
    analyses := s.analyses.enterPass
    log := s.log.push (.runningPass pass.text s.module.name) }

/-- **Passes in a row lead by steps to where they end.** -/
theorem steps_runPasses (passes : List Pass) : Steps (runPasses passes) := by
  induction passes with
  | nil => exact .of_module_eq fun _ => rfl
  | cons pass passes ih => exact (steps_runPass pass).bind fun _ => ih

end PassAction

/-! ### Runs of passes -/

open SourceCoverage.Module

/-- **A run of passes leads by steps to where it ends.** -/
theorem Pipeline.run_steps (pipeline : Pipeline) (s : Session) :
    ReflTransGen PassStep s.module (endOf (pipeline.run s)).module := by
  have hsteps := PassAction.steps_runPasses pipeline.passes { module := s.module, log := s.log }
  have hend : (endOf (pipeline.run s)).module = (endOf (PassAction.runPasses pipeline.passes
      { module := s.module, log := s.log })).module := by
    rw [Pipeline.run]
    cases PassAction.runPasses pipeline.passes { module := s.module, log := s.log } <;> rfl
  rw [hend]
  exact hsteps

/-- **The effects of passes are reached by steps.** -/
theorem steps_of_effectOf {passes : List Pass} {m m' : Module}
    (h : effectOf passes m = .ok m') : ReflTransGen PassStep m m' := by
  obtain ⟨s', hrun, rfl⟩ := (Pipeline.run_spec ⟨passes⟩ { module := m }).1 m' h
  have hsteps := Pipeline.run_steps ⟨passes⟩ { module := m }
  rw [hrun] at hsteps
  exact hsteps

/-- Where there are no increments, passes make none. -/
theorem increments_effectOf_of_eq_nil {passes : List Pass} {m m' : Module}
    (hnone : m.increments = []) (h : effectOf passes m = .ok m') : m'.increments = [] :=
  keeps_of_steps (P := (·.increments = []))
    (fun _ _ hstep hnone => List.subset_nil.1 (hnone ▸ hstep.increments_subset))
    (steps_of_effectOf h) hnone

/-- **Passes that begin with lowering leave no increments.** -/
theorem increments_effectOf {lowering : Lowering} {passes : List Pass} {m m' : Module}
    (h : effectOf (.lowerIncrements lowering :: passes) m = .ok m') : m'.increments = [] := by
  rw [effectOf, Pass.effect] at h
  cases hlower : m.lower lowering with
  | error e =>
      rw [hlower] at h
      cases h
  | ok m₁ =>
      rw [hlower] at h
      exact increments_effectOf_of_eq_nil (increments_lower hlower) h

end SourceCoverage
