import SourceCoverage.Proofs.Pipeline.Grammar
import SourceCoverage.Proofs.Pipeline.Sparing
import SourceCoverage.Proofs.Run

/-!
# How Runs Fail

A run can fail in three places: when the text of its pipeline is read, in a pass, and in the
emission. The error tells the first from the others. It is one of construction exactly if the text
cannot be read, and then nothing has been done yet; a pass fails for want of a name variable or in
verification, and the run ends there, before it has touched any coverage data.

## Main results

* `Pass.effect_error`: what a pass fails with.
* `effectOf_error`: the errors of passes are not errors of construction.
* `Action.runWith_of_passes_error`: a run ends where its passes fail.
* `Action.run_construction_iff`: the three kinds of failure of a run.
-/

namespace SourceCoverage

/-! ### Kinds of errors -/

/-- A text that cannot be read is an error of construction. -/
theorem Pipeline.isConstruction_of_parse {text : String} {e : PipelineError}
    (h : parse text = .error e) : (Error.pipeline e).isConstruction = true := by
  rw [parse] at h
  cases hpasses : passesOf text.toList with
  | ok passes => simp [hpasses] at h
  | error fault =>
      rw [hpasses] at h
      obtain rfl := Except.error.inj h
      rcases fault.toError_cases text with ⟨_, heq⟩ | ⟨_, heq⟩ | ⟨_, _, heq⟩ <;> rw [heq] <;> rfl

/-- The pipeline of a run is missing exactly if its text cannot be read. -/
theorem RunConfig.pipeline_eq_error_iff {config : RunConfig} {e : PipelineError} :
    config.pipeline = .error e ↔ Pipeline.parse config.passes = .error e := by
  rw [RunConfig.pipeline, Pipeline.build]
  cases Pipeline.parse config.passes <;> simp [bind, Except.bind, pure, Except.pure]

/-- The first increments fail for want of a name variable. -/
theorem Module.profileAll_error {m : Module} {uses : List Increment} {e : PipelineError}
    (h : m.profileAll uses = .error e) : ∃ message, e = .backend message := by
  induction uses generalizing m with
  | nil => simp [profileAll] at h
  | cons use uses ih =>
      rw [profileAll, profileFirst] at h
      cases hbytes : m.bytes? use.nameVariable with
      | none =>
          rw [hbytes] at h
          exact ⟨_, (Except.error.inj h).symm⟩
      | some data =>
          rw [hbytes] at h
          exact ih (map_eq_error_iff.1 h)

/-- **What a pass fails with**: lowering with an error of its own, verification with an offence. -/
theorem Pass.effect_error {pass : Pass} {m : Module} {e : PipelineError}
    (h : pass.effect m = .error e) : (∃ message, e = .backend message) ∨
      ∃ offence, m.offence? m.referenceGraph = some offence ∧
        e = .verification offence.message := by
  cases pass with
  | lowerIncrements lowering =>
      rw [effect, Module.lower] at h
      split at h
      · cases h
      · exact .inl (Module.profileAll_error (map_eq_error_iff.1 h))
  | removeDeadSymbols => cases h
  | stripDeadPrototypes => cases h
  | optimize level => cases level <;> cases h
  | verify =>
      rw [effect] at h
      cases hoffence : m.offence? m.referenceGraph with
      | none => simp [hoffence] at h
      | some offence =>
          rw [hoffence] at h
          exact .inr ⟨offence, rfl, (Except.error.inj h).symm⟩
  | noOp => cases h

/-- Passes fail in one of them, after the others before it have succeeded. -/
theorem exists_of_effectOf_error {passes : List Pass} {m : Module} {e : PipelineError}
    (h : effectOf passes m = .error e) :
    ∃ before m', ∃ pass : Pass, effectOf before m = .ok m' ∧ pass.effect m' = .error e := by
  induction passes generalizing m with
  | nil => cases h
  | cons pass passes ih =>
      rw [effectOf] at h
      cases heffect : pass.effect m with
      | error e' =>
          rw [heffect] at h
          obtain rfl := Except.error.inj h
          exact ⟨[], m, pass, rfl, heffect⟩
      | ok m₁ =>
          rw [heffect] at h
          obtain ⟨before, m', failing, hbefore, hfailing⟩ := ih h
          refine ⟨pass :: before, m', failing, ?_, hfailing⟩
          rw [effectOf, heffect]
          exact hbefore

/-- **The errors of passes are not errors of construction.** -/
theorem effectOf_error {passes : List Pass} {m : Module} {e : PipelineError}
    (h : effectOf passes m = .error e) : (Error.pipeline e).isConstruction = false := by
  obtain ⟨_, _, pass, -, hpass⟩ := exists_of_effectOf_error h
  rcases Pass.effect_error hpass with ⟨_, rfl⟩ | ⟨_, -, rfl⟩ <;> rfl

/-- A run of a pipeline that fails does so by the effect of its passes. -/
theorem Pipeline.effectOf_of_run_error {pipeline : Pipeline} {s s' : Session} {e : PipelineError}
    (h : pipeline.run s = .error e s') : effectOf pipeline.passes s.module = .error e := by
  obtain ⟨hok, herror⟩ := run_spec pipeline s
  cases heffect : effectOf pipeline.passes s.module with
  | ok m =>
      obtain ⟨s₁, hrun, -⟩ := hok m heffect
      cases hrun.symm.trans h
  | error e' =>
      obtain ⟨s₁, hrun⟩ := herror e' heffect
      obtain ⟨rfl, -⟩ := EStateM.Result.error.inj (hrun.symm.trans h)
      rfl

/-! ### Failing runs -/

namespace Action

variable {s : Session} {config : RunConfig} {pipeline : Pipeline} {compress : Bytes → Bytes}

/-- **A run ends where its passes fail**: with their error, and in the session that they leave. -/
theorem runWith_of_passes_error {e : PipelineError} (hbuild : config.pipeline = .ok pipeline)
    (h : effectOf pipeline.passes s.module = .error e) :
    ∃ log s', pipeline.run { s with log } = .error e s' ∧
      runWith compress .full config s = .error (.pipeline e) s' := by
  obtain ⟨passes, coverage⟩ := config
  let begun := s.record (.runBegun passes coverage.isSome)
  have hreport : report (ε := Error) (.runBegun passes coverage.isSome) s = .ok () begun := rfl
  cases coverage with
  | none =>
      replace hbuild : Pipeline.build none passes = .ok pipeline := hbuild
      obtain ⟨log, hparsed⟩ := enter_spec (ε := Error) [RunState.init] .pipelineParsed begun
      obtain ⟨s', hrun⟩ := (Pipeline.run_spec pipeline { begun with log }).2 e h
      have hwithin : within Error.pipeline pipeline.run { begun with log }
          = .error (.pipeline e) s' := by rw [within, hrun]
      refine ⟨log, s', hrun, ?_⟩
      simp only [runWith, RunConfig.coverageEnabled, bind, EStateM.bind, hreport, pure,
        EStateM.pure, hbuild, Except.mapError, ofExcept, hparsed, hwithin]
  | some options =>
      replace hbuild : Pipeline.build (some ⟨(options.within .full).atomicCounters⟩) passes
        = .ok pipeline := hbuild
      obtain ⟨log₁, hlowering⟩ := negotiateLowering_spec .full rfl options begun
      obtain ⟨log₀, happlied⟩ := enter_spec (ε := Error) [RunState.init] .loweringApplied
        { begun with log := log₁ }
      obtain ⟨log, hparsed⟩ := enter_spec (ε := Error) [.init, .loweringApplied] .pipelineParsed
        { begun with log := log₀ }
      obtain ⟨s', hrun⟩ := (Pipeline.run_spec pipeline { begun with log }).2 e h
      have hwithin : within Error.pipeline pipeline.run { begun with log }
          = .error (.pipeline e) s' := by rw [within, hrun]
      refine ⟨log, s', hrun, ?_⟩
      simp only [runWith, RunConfig.coverageEnabled, bind, EStateM.bind, hreport, pure,
        EStateM.pure, hlowering, happlied, List.cons_append, List.nil_append, hbuild,
        Except.mapError, ofExcept, hparsed, hwithin]

/-- **What a run fails with**, if its text can be read: the error of its passes, or one of its
emission. -/
theorem passes_error_or_coverage_of_run {e : Error} {s' : Session}
    (hbuild : config.pipeline = .ok pipeline) (h : runWith compress .full config s = .error e s') :
    (∃ e', effectOf pipeline.passes s.module = .error e' ∧ e = .pipeline e') ∨
      ∃ e', e = .coverage e' := by
  cases heffect : effectOf pipeline.passes s.module with
  | error e' =>
      obtain ⟨log, s₁, -, hrun⟩ := runWith_of_passes_error hbuild heffect
      obtain ⟨rfl, -⟩ := EStateM.Result.error.inj (hrun.symm.trans h)
      exact .inl ⟨e', rfl, rfl⟩
  | ok m =>
      obtain ⟨passes, coverage⟩ := config
      cases coverage with
      | none =>
          obtain ⟨report, s₁, hrun, -⟩ := runWith_plain_spec .full hbuild heffect
          cases hrun.symm.trans h
      | some options =>
          obtain ⟨s₁, -, hok, herror⟩ := runWith_coverage_spec .full rfl hbuild heffect
          cases hemit : emitWith compress options s₁ with
          | ok summary s₂ =>
              obtain ⟨report, s₃, hrun, -⟩ := hok summary s₂ hemit
              cases hrun.symm.trans h
          | error e' s₂ =>
              obtain ⟨rfl, -⟩ := EStateM.Result.error.inj ((herror e' s₂ hemit).symm.trans h)
              exact .inr ⟨e', rfl⟩

/-- A run whose text can be read does not fail with an error of construction. -/
theorem isConstruction_of_run_error {e : Error} {s' : Session}
    (hbuild : config.pipeline = .ok pipeline) (h : runWith compress .full config s = .error e s') :
    e.isConstruction = false := by
  rcases passes_error_or_coverage_of_run hbuild h with ⟨e', heffect, rfl⟩ | ⟨e', rfl⟩
  · exact effectOf_error heffect
  · rfl

/-- **How a run fails**, however it compresses. It ends with an error of construction exactly if the
text of its pipeline cannot be read, and then the module and what the latest run counted are as they
were. If instead a pass fails, the run ends with that pass's error, which is not one of
construction, and none of the variables that emissions put into a module has been created or defined
anew: those that are in the module were in it before, as they are. -/
theorem run_construction_iff (compress : Bytes → Bytes) (config : RunConfig) (s : Session) :
    ((∃ e s', runWith compress .full config s = .error e s' ∧ e.isConstruction) ↔
      ∃ e, Pipeline.parse config.passes = .error e) ∧
    (∀ e s', runWith compress .full config s = .error e s' → e.isConstruction →
      s'.module = s.module ∧ s'.lastRun = s.lastRun) ∧
    ∀ pipeline e t, config.pipeline = .ok pipeline → pipeline.run s = .error e t →
      ∃ s', runWith compress .full config s = .error (.pipeline e) s' ∧
        (Error.pipeline e).isConstruction = false ∧
        s'.module.coverageData.Sublist s.module.coverageData := by
  have hconstruction : ∀ e s', runWith compress .full config s = .error e s' → e.isConstruction →
      ∃ e', config.pipeline = .error e' := by
    intro e s' hrun hkind
    cases hbuild : config.pipeline with
    | ok pipeline =>
        rw [isConstruction_of_run_error hbuild hrun] at hkind
        cases hkind
    | error e' => exact ⟨e', rfl⟩
  refine ⟨⟨?_, ?_⟩, ?_, ?_⟩
  · rintro ⟨e, s', hrun, hkind⟩
    obtain ⟨e', hbuild⟩ := hconstruction e s' hrun hkind
    exact ⟨e', RunConfig.pipeline_eq_error_iff.1 hbuild⟩
  · rintro ⟨e, hparse⟩
    obtain ⟨log, hrun⟩ := runWith_of_build_error (RunConfig.pipeline_eq_error_iff.2 hparse) s
    exact ⟨_, _, hrun, Pipeline.isConstruction_of_parse hparse⟩
  · intro e s' hrun hkind
    obtain ⟨e', hbuild⟩ := hconstruction e s' hrun hkind
    obtain ⟨log, hrun'⟩ := runWith_of_build_error hbuild s
    obtain ⟨-, rfl⟩ := EStateM.Result.error.inj (hrun.symm.trans hrun')
    exact ⟨rfl, rfl⟩
  · intro pipeline e t hbuild hfail
    have heffect := Pipeline.effectOf_of_run_error hfail
    obtain ⟨log, s', hpasses, hrun⟩ := runWith_of_passes_error hbuild heffect
    have hspared := pipeline.run_spares { s with log }
    rw [hpasses] at hspared
    exact ⟨s', hrun, effectOf_error heffect, hspared⟩

end Action

end SourceCoverage
