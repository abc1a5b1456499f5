import SourceCoverage.Proofs.Emission
import SourceCoverage.Proofs.Pipeline.Passage
import SourceCoverage.Run

/-!
# The Effect of a Run

A run does to the module what the passes of its pipeline do, and with coverage what an emission
does then; everything else that it does is reporting. If the text of the pipeline cannot be read
the module is left alone. On a module that follows a history no pass fails, so that the only thing
that can go wrong after the text has been read is that the filenames table is too long, as it is
compressed.

Where increments cannot be lowered there are no runs with coverage. Where they can be lowered, but
not to atomic updates, a run does what one does whose options do not ask for these.

## Main results

* `Action.runWith_of_build_error`, `Action.runWith_plain_spec`, `Action.runWith_coverage_spec`: a
  run as the effect of its passes and an emission.
* `Action.runWith_of_not_loweringPass`: a run with coverage where increments cannot be lowered.
* `Action.runWith_spec`: a run on a module that follows a history.
-/

namespace SourceCoverage

/-- How a run lowers increments: atomically or not, as its options ask for, if coverage is
wanted. -/
def RunConfig.lowering (config : RunConfig) : Option Lowering :=
  config.coverage.map fun options => ⟨options.atomicCounters⟩

/-- The pipeline of a run, if its text can be read. -/
def RunConfig.pipeline (config : RunConfig) : Except PipelineError Pipeline :=
  Pipeline.build config.lowering config.passes

/-- The options without what an environment is not able to do. -/
def CoverageOptions.within (capabilities : Capabilities) (options : CoverageOptions) :
    CoverageOptions :=
  { options with atomicCounters := capabilities.atomicLowering && options.atomicCounters }

/-- Everything that a run needs, without what its environment is not able to do. -/
def RunConfig.within (capabilities : Capabilities) (config : RunConfig) : RunConfig :=
  { config with coverage := config.coverage.map (·.within capabilities) }

/-- This library is able to do all that is asked for. -/
@[simp]
theorem RunConfig.within_full (config : RunConfig) : config.within .full = config := by
  obtain ⟨passes, coverage⟩ := config
  cases coverage <;> rfl

/-- Whether the header of the emission, if there is one, can tell the length of its filenames
table. -/
def RunConfig.Fits (compress : Bytes → Bytes) (config : RunConfig) : Prop :=
  ∀ options, config.coverage = some options → options.Fits compress

namespace Action

variable {s : Session} {passes : String} {options : CoverageOptions} {pipeline : Pipeline}
  {compress : Bytes → Bytes} {capabilities : Capabilities}

/-! ### Runs, passes and emissions -/

/-- Increments are lowered as the options ask for, as far as the environment is able to. -/
theorem negotiateLowering_spec (capabilities : Capabilities) (h : capabilities.loweringPass)
    (options : CoverageOptions) (s : Session) : ∃ log, negotiateLowering capabilities options s
      = .ok ⟨(options.within capabilities).atomicCounters⟩ { s with log } := by
  rw [negotiateLowering, if_neg (not_not_intro h)]
  cases hlowers : capabilities.atomicLowering <;> cases hasks : options.atomicCounters
  · exact ⟨s.log, by simp [CoverageOptions.within, hlowers, hasks]; rfl⟩
  · exact ⟨s.log.push .atomicsUnavailable, by simp [CoverageOptions.within, hlowers, hasks]; rfl⟩
  · exact ⟨s.log, by simp [CoverageOptions.within, hlowers, hasks]; rfl⟩
  · exact ⟨s.log, by simp [CoverageOptions.within, hlowers, hasks]; rfl⟩

/-- Going on to the next stage adds to the log and to nothing else. -/
theorem enter_spec {ε : Type} (states : List RunState) (next : RunState) (s : Session) :
    ∃ log, enter (ε := ε) states next s = .ok (states ++ [next]) { s with log } := by
  cases hlast : states.getLast? with
  | none => exact ⟨s.log, by simp [enter, hlast, pure, EStateM.pure]⟩
  | some previous =>
      refine ⟨s.log.push (.stateEntered previous.text next.text), ?_⟩
      simp only [enter, hlast]
      rfl

/-- A pipeline does to the module of a session what its passes do. -/
theorem within_run_spec {m : Module} (pipeline : Pipeline) (s : Session)
    (heffect : effectOf pipeline.passes s.module = .ok m) :
    ∃ s', within Error.pipeline pipeline.run s = .ok () s' ∧ s'.module = m := by
  obtain ⟨s', hrun, hmodule⟩ := (Pipeline.run_spec pipeline s).1 m heffect
  exact ⟨s', by rw [within, hrun], hmodule⟩

/-- A run whose text cannot be read leaves the module alone. -/
theorem runWith_of_build_error {config : RunConfig} {e : PipelineError}
    (h : config.pipeline = .error e) (s : Session) :
    ∃ log, runWith compress .full config s = .error (.pipeline e) { s with log } := by
  obtain ⟨passes, coverage⟩ := config
  let begun := s.record (.runBegun passes coverage.isSome)
  have hreport : report (ε := Error) (.runBegun passes coverage.isSome) s = .ok () begun := rfl
  cases coverage with
  | none =>
      refine ⟨begun.log, ?_⟩
      replace h : Pipeline.build none passes = .error e := h
      simp only [runWith, RunConfig.coverageEnabled, bind, EStateM.bind, hreport, pure,
        EStateM.pure, h, Except.mapError, ofExcept]
      rfl
  | some options =>
      obtain ⟨log₀, hlowering⟩ := negotiateLowering_spec .full rfl options begun
      obtain ⟨log, henter⟩ := enter_spec (ε := Error) [RunState.init] .loweringApplied
        { begun with log := log₀ }
      refine ⟨log, ?_⟩
      replace h : Pipeline.build (some ⟨(options.within .full).atomicCounters⟩) passes
        = .error e := h
      simp only [runWith, RunConfig.coverageEnabled, bind, EStateM.bind, hreport, pure,
        EStateM.pure, hlowering, henter, h, Except.mapError, ofExcept]
      rfl

/-- A run with coverage is refused where increments cannot be lowered, and nothing is done. -/
theorem runWith_of_not_loweringPass (compress : Bytes → Bytes) (passes : String)
    (options : CoverageOptions) (h : capabilities.loweringPass = false) (s : Session) :
    ∃ message log, runWith compress capabilities ⟨passes, some options⟩ s
      = .error (.coverage (.host message)) { s with log } := by
  let begun := s.record (.runBegun passes true)
  have hreport : report (ε := Error) (.runBegun passes true) s = .ok () begun := rfl
  let message := "coverage needs increment lowering, host has " ++ capabilities.text
  have hrefused : negotiateLowering capabilities options begun
      = .error (.coverage (.host message)) begun := by
    rw [negotiateLowering, if_pos (by simp [h])]
    rfl
  refine ⟨message, begun.log, ?_⟩
  simp only [runWith, RunConfig.coverageEnabled, Option.isSome_some, bind, EStateM.bind, hreport,
    hrefused]
  rfl

/-- **A run without coverage** does to the module what its passes do. -/
theorem runWith_plain_spec {m : Module} (capabilities : Capabilities)
    (hbuild : (RunConfig.mk passes none).pipeline = .ok pipeline)
    (heffect : effectOf pipeline.passes s.module = .ok m) :
    ∃ report s', runWith compress capabilities ⟨passes, none⟩ s = .ok report s' ∧
      s'.module = m := by
  let begun := s.record (.runBegun passes false)
  have hreport : report (ε := Error) (.runBegun passes false) s = .ok () begun := rfl
  replace hbuild : Pipeline.build none passes = .ok pipeline := hbuild
  obtain ⟨log, hparsed⟩ := enter_spec (ε := Error) [RunState.init] .pipelineParsed begun
  obtain ⟨s₁, hrun, hmodule⟩ := within_run_spec pipeline { begun with log } heffect
  obtain ⟨log₂, hran⟩ := enter_spec (ε := Error) [.init, .pipelineParsed] .pipelineRun s₁
  obtain ⟨log₃, hdone⟩ := enter_spec (ε := Error) [.init, .pipelineParsed, .pipelineRun] .done
    { s₁ with log := log₂ }
  refine ⟨⟨[.init, .pipelineParsed, .pipelineRun, .done], none, none⟩, { s₁ with log := log₃ },
    ?_, hmodule⟩
  simp only [runWith, RunConfig.coverageEnabled, Option.isSome_none, bind, EStateM.bind, hreport,
    pure, EStateM.pure, hbuild, Except.mapError, ofExcept, hparsed, hrun, List.cons_append,
    List.nil_append, hran, hdone]

/-- **A run with coverage** does to the module what its passes do, and then what an emission
does. -/
theorem runWith_coverage_spec {m : Module} (capabilities : Capabilities)
    (hlowers : capabilities.loweringPass)
    (hbuild : (RunConfig.mk passes (some (options.within capabilities))).pipeline = .ok pipeline)
    (heffect : effectOf pipeline.passes s.module = .ok m) :
    ∃ s₁, s₁.module = m ∧
      (∀ summary s₂, emitWith compress options s₁ = .ok summary s₂ →
        ∃ report s', runWith compress capabilities ⟨passes, some options⟩ s = .ok report s' ∧
          report.emission = some summary ∧ s'.module = s₂.module) ∧
      ∀ e s₂, emitWith compress options s₁ = .error e s₂ →
        runWith compress capabilities ⟨passes, some options⟩ s = .error (.coverage e) s₂ := by
  let lowering : Lowering := ⟨(options.within capabilities).atomicCounters⟩
  let begun := s.record (.runBegun passes true)
  have hreport : report (ε := Error) (.runBegun passes true) s = .ok () begun := rfl
  replace hbuild : Pipeline.build (some lowering) passes = .ok pipeline := hbuild
  obtain ⟨log, hlowering⟩ := negotiateLowering_spec capabilities hlowers options begun
  obtain ⟨log₀, happlied⟩ := enter_spec (ε := Error) [RunState.init] .loweringApplied
    { begun with log }
  obtain ⟨log₁, hparsed⟩ := enter_spec (ε := Error) [.init, .loweringApplied] .pipelineParsed
    { begun with log := log₀ }
  obtain ⟨s₁, hrun, hmodule⟩ := within_run_spec pipeline { begun with log := log₁ } heffect
  obtain ⟨log₂, hran⟩ := enter_spec (ε := Error) [.init, .loweringApplied, .pipelineParsed]
    .pipelineRun s₁
  refine ⟨{ s₁ with log := log₂ }, hmodule, fun summary s₂ hemit => ?_, fun e s₂ hemit => ?_⟩
  · have hwithin : within Error.coverage (emitWith compress options) { s₁ with log := log₂ }
        = .ok summary s₂ := by rw [within, hemit]
    obtain ⟨log₃, hemitted⟩ := enter_spec (ε := Error)
      [.init, .loweringApplied, .pipelineParsed, .pipelineRun] .mappingEmitted s₂
    obtain ⟨log₄, hdone⟩ := enter_spec (ε := Error)
      [.init, .loweringApplied, .pipelineParsed, .pipelineRun, .mappingEmitted] .done
      { s₂ with log := log₃ }
    refine ⟨⟨[.init, .loweringApplied, .pipelineParsed, .pipelineRun, .mappingEmitted, .done],
      some lowering, some summary⟩, { s₂ with log := log₄ }, ?_, rfl, rfl⟩
    simp only [runWith, RunConfig.coverageEnabled, Option.isSome_some, bind, EStateM.bind, hreport,
      pure, EStateM.pure, hlowering, happlied, List.cons_append, List.nil_append, lowering, hbuild,
      Except.mapError, ofExcept, hparsed, hrun, hran, hwithin, hemitted, hdone]
  · have hwithin : within Error.coverage (emitWith compress options) { s₁ with log := log₂ }
        = .error (.coverage e) s₂ := by rw [within, hemit]
    simp only [runWith, RunConfig.coverageEnabled, Option.isSome_some, bind, EStateM.bind, hreport,
      pure, EStateM.pure, hlowering, happlied, List.cons_append, List.nil_append, lowering, hbuild,
      Except.mapError, ofExcept, hparsed, hrun, hran, hwithin]

/-! ### Runs and history -/

/-- What a run that succeeds makes of the module that its passes lead to: with coverage the entry
point of the profiling runtime is declared, and a record emitted for each counter array. -/
structure Completes (compress : Bytes → Bytes) (config : RunConfig) (m : Module)
    (history : History) (report : RunReport) (m' : Module) : Prop where
  follows : m'.Follows history
  plain : config.coverage = none → m' = m
  covered : ∀ options, config.coverage = some options →
    m'.functions = m.withRuntime.functions ∧ ∃ summary, report.emission = some summary ∧
      summary.records = m.counted.map (options.emitted compress) ∧
      summary.filenamesHash = (options.filenames compress).hash

/-- **The effect of a run** on a module that follows a history, if the text of its pipeline can be
read and increments can be lowered: the passes succeed, and so does the run if the filenames table
is short enough. -/
theorem runWith_spec {history : History} {config : RunConfig} (capabilities : Capabilities)
    (hlowers : capabilities.loweringPass) (h : s.module.Follows history)
    (hbuild : (config.within capabilities).pipeline = .ok pipeline) :
    ∃ m history', effectOf pipeline.passes s.module = .ok m ∧ m.Follows history' ∧
      (∀ name, m.Defines name → s.module.Defines name ∧
        history' name = (history name).lowerIf (loweringOf pipeline.passes)) ∧
      (config.Fits compress → ∃ report s', runWith compress capabilities config s = .ok report s' ∧
        Completes compress config m history' report s'.module) ∧
      (¬config.Fits compress → ∃ length s', runWith compress capabilities config s
        = .error (.coverage (.mappingTooLarge Symbol.coverageMapping length)) s' ∧
          s'.module = m) := by
  obtain ⟨m, history', heffect, hfollows, hshape⟩ := h.effectOf pipeline.passes
  refine ⟨m, history', heffect, hfollows, hshape, fun hfits => ?_, fun hfits => ?_⟩
  · obtain ⟨passes, coverage⟩ := config
    cases coverage with
    | none =>
        obtain ⟨report, s', hrun, rfl⟩ := runWith_plain_spec capabilities hbuild heffect
        exact ⟨report, s', hrun, hfollows, fun _ => rfl, nofun⟩
    | some options =>
        obtain ⟨s₁, rfl, hok, -⟩ := runWith_coverage_spec capabilities hlowers hbuild heffect
        obtain ⟨summary, s₂, hemit, hfollows₂, hfunctions, hrecords, hhash⟩ :=
          emitWith_spec hfollows options (hfits options rfl)
        obtain ⟨report, s', hrun, hemission, hmodule⟩ := hok summary s₂ hemit
        refine ⟨report, s', hrun, hmodule ▸ hfollows₂, nofun, ?_⟩
        intro other hother
        obtain rfl := Option.some.inj hother
        exact ⟨hmodule ▸ hfunctions, summary, hemission, hrecords, hhash⟩
  · obtain ⟨passes, coverage⟩ := config
    cases coverage with
    | none => exact absurd (fun _ => nofun) hfits
    | some options =>
        obtain ⟨s₁, rfl, -, herror⟩ := runWith_coverage_spec capabilities hlowers hbuild heffect
        have htable : ¬options.Fits compress := fun htable => hfits fun other hother =>
          Option.some.inj hother ▸ htable
        obtain ⟨log, hemit⟩ := emitWith_of_not_fits options htable s₁
        exact ⟨_, _, herror _ _ hemit, rfl⟩

/-- With coverage a run lowers as its options ask for, and its pipeline is that of the text with
lowering in front. -/
theorem pipeline_coverage_eq_ok_iff :
    (RunConfig.mk passes (some options)).pipeline = .ok pipeline ↔
      ∃ parsed, Pipeline.parse passes = .ok parsed ∧
        pipeline = ⟨.lowerIncrements ⟨options.atomicCounters⟩ :: parsed.passes⟩ := by
  rw [RunConfig.pipeline, Pipeline.build]
  cases hparse : Pipeline.parse passes with
  | error e => simp [bind, Except.bind]
  | ok parsed => simp [bind, Except.bind, pure, Except.pure, RunConfig.lowering, eq_comm]

/-- Without coverage the pipeline of a run is that of the text. -/
theorem pipeline_plain_eq_ok_iff :
    (RunConfig.mk passes none).pipeline = .ok pipeline ↔ Pipeline.parse passes = .ok pipeline := by
  rw [RunConfig.pipeline, Pipeline.build]
  cases hparse : Pipeline.parse passes with
  | error e => simp [bind, Except.bind]
  | ok parsed => simp [bind, Except.bind, pure, Except.pure, RunConfig.lowering]

/-! ### Runs that are refused -/

/-- A run with coverage does not succeed where increments cannot be lowered. -/
theorem not_runs_of_not_loweringPass (compress : Bytes → Bytes) (passes : String)
    (options : CoverageOptions) (h : capabilities.loweringPass = false) (s : Session) :
    ¬∃ report s', runWith compress capabilities ⟨passes, some options⟩ s = .ok report s' := by
  rintro ⟨report, s', hrun⟩
  obtain ⟨message, log, hrefused⟩ := runWith_of_not_loweringPass compress passes options h s
  cases hrefused.symm.trans hrun

/-- A run with coverage is refused if its filenames table is too long, when the passes have done
their work. -/
theorem runWith_of_not_fits {history : History} (capabilities : Capabilities)
    (hlowers : capabilities.loweringPass) (h : s.module.Follows history)
    (hparse : Pipeline.parse passes = .ok pipeline) (hfits : ¬options.Fits compress) :
    ∃ length s', runWith compress capabilities ⟨passes, some options⟩ s
      = .error (.coverage (.mappingTooLarge Symbol.coverageMapping length)) s' := by
  have hbuild : ((RunConfig.mk passes (some options)).within capabilities).pipeline = .ok _ :=
    pipeline_coverage_eq_ok_iff.2 ⟨pipeline, hparse, rfl⟩
  obtain ⟨_, _, -, -, -, -, hfail⟩ := runWith_spec capabilities hlowers h hbuild
  obtain ⟨length, s', hrun, -⟩ := hfail fun hall => hfits (hall options rfl)
  exact ⟨length, s', hrun⟩

/-- A run with coverage does not succeed if its filenames table is too long. -/
theorem not_runs_of_not_fits {history : History} (h : s.module.Follows history)
    (hparse : Pipeline.parse passes = .ok pipeline) (hfits : ¬options.Fits compress) :
    ¬∃ report s', runWith compress .full ⟨passes, some options⟩ s = .ok report s' := by
  rintro ⟨report, s', hrun⟩
  obtain ⟨length, s'', hrefused⟩ := runWith_of_not_fits .full rfl h hparse hfits
  cases hrefused.symm.trans hrun

end Action

end SourceCoverage
