import SourceCoverage.Proofs.Building
import SourceCoverage.Proofs.Run

/-!
# Building and Running in Turn

A program may be built on after a run, and run again. What counts for the counters of a function
is with which counts it was instrumented, and which of these instrumentations have been lowered
since; a function that a run deletes starts anew. This *tally* is kept by looking at the work from
outside, and it agrees with the history that the module follows.

## Main results

* `Stage.follows`: one stage of the work in the history, and in the tally.
* `follows_work`: the whole work.
-/

namespace SourceCoverage

/-! ### Tallies -/

/-- The counts with which a function was instrumented, the latest first: those of the
instrumentations that are still pending, and those of the lowered ones. -/
structure Tally where
  pending : List UInt32 := []
  lowered : List UInt32 := []
  deriving Repr, DecidableEq

/-- The tally after lowering, if the pipeline of a run lowers at all. -/
def Tally.after (config : RunConfig) (tally : Tally) : Tally :=
  match config.pipeline with
  | .ok pipeline =>
    if (loweringOf pipeline.passes).isSome then ⟨[], tally.pending ++ tally.lowered⟩ else tally
  | .error _ => tally

namespace Stage

/-- Whether a stage gives unreserved names only. -/
def Unreserved : Stage → Prop
  | build step => step.Unreserved
  | run _ _ => True

/-- Names are looked at one by one. -/
instance (stage : Stage) : Decidable stage.Unreserved :=
  match stage with
  | build step => inferInstanceAs (Decidable step.Unreserved)
  | run _ _ => inferInstanceAs (Decidable True)

/-- The tallies after a stage: a building step may instrument a function, a run may lower what is
pending, and functions that are not defined any more start anew. -/
def tally (stage : Stage) (s : Session) (tallies : String → Tally) (name : String) : Tally :=
  match stage with
  | build step => { tallies name with
      pending := step.counts s.module name ++ (tallies name).pending }
  | run compress config =>
    if (perform (run compress config) s).module.Defines name then (tallies name).after config
    else {}

end Stage

/-- Whether each stage of some work succeeds. -/
def SucceedEach : List Stage → Session → Prop
  | [], _ => True
  | stage :: stages, s => stage.Succeeds s ∧ SucceedEach stages (stage.perform s)

/-- The tallies after some work. -/
def tallies : List Stage → Session → (String → Tally) → String → Tally
  | [], _, before => before
  | stage :: stages, s, before => tallies stages (stage.perform s) (stage.tally s before)

/-- The counts of a tally are those with which the work instrumented the function. -/
theorem mem_tallies {stages : List Stage} {s : Session} {before : String → Tally} {name : String}
    {count : UInt32} (hmem : count ∈ (tallies stages s before name).pending ++
      (tallies stages s before name).lowered) :
    count ∈ (before name).pending ++ (before name).lowered ∨
      .build (.instrument name count) ∈ stages := by
  induction stages generalizing s before with
  | nil => exact .inl hmem
  | cons stage stages ih =>
      rcases ih hmem with hmem | hmem
      · cases stage with
        | build step =>
            rw [Stage.tally, List.append_assoc] at hmem
            rcases List.mem_append.1 hmem with hcount | hmem
            · obtain rfl := BuildStep.eq_of_mem_counts hcount
              exact .inr (.head _)
            · exact .inl hmem
        | run compress config =>
            rw [Stage.tally] at hmem
            split at hmem
            · rw [Tally.after] at hmem
              split at hmem
              · split at hmem
                · exact .inl hmem
                · exact .inl hmem
              · exact .inl hmem
            · cases hmem
      · exact .inr (.tail _ hmem)

/-! ### Tallies and history -/

/-- The tally that a shape tells. -/
def Shape.tally (shape : Shape) : Tally := ⟨shape.pending, shape.lowered.map Prod.fst⟩

/-- The tally of a shape under lowering. -/
theorem Shape.tally_lowerIf {shape : Shape} {config : RunConfig} {pipeline : Pipeline}
    (hbuild : config.pipeline = .ok pipeline) :
    (shape.lowerIf (loweringOf pipeline.passes)).tally = shape.tally.after config := by
  rw [Tally.after, hbuild]
  simp only
  cases loweringOf pipeline.passes with
  | none => rfl
  | some lowering => simp [lowerIf, lower, tally, Function.comp_def]

/-- Declaring the entry point of the profiling runtime defines nothing. -/
theorem Module.defines_withRuntime {m : Module} {name : String} :
    m.withRuntime.Defines name ↔ m.Defines name := by
  rw [withRuntime, Defines, Defines]
  split
  · rfl
  · simp

/-- A module that is left after a run defines what the passes left. -/
theorem Action.Completes.defines_iff {compress : Bytes → Bytes} {config : RunConfig}
    {m m' : Module} {history : History} {report : RunReport}
    (h : Completes compress config m history report m') {name : String} :
    m'.Defines name ↔ m.Defines name := by
  cases hcoverage : config.coverage with
  | none => rw [h.plain hcoverage]
  | some options =>
      obtain ⟨hfunctions, -⟩ := h.covered options hcoverage
      rw [Module.Defines, hfunctions]
      exact Module.defines_withRuntime

namespace Stage

variable {s : Session} {history : History}

/-- A run in the history, whatever becomes of it. -/
theorem follows_run (h : s.module.Follows history) (compress : Bytes → Bytes) (config : RunConfig) :
    ∃ history', (perform (run compress config) s).module.Follows history' ∧
      ∀ name, (perform (run compress config) s).module.Defines name →
        (history' name).tally = (history name).tally.after config := by
  rw [perform_run]
  cases hbuild : config.pipeline with
  | error e =>
      obtain ⟨log, hrun⟩ := Action.runWith_of_build_error hbuild s
      rw [hrun]
      exact ⟨history, h, fun name _ => by rw [Tally.after, hbuild]⟩
  | ok pipeline =>
      obtain ⟨m, history', -, hfollows, hshape, hok, hfail⟩ :=
        Action.runWith_spec .full rfl h (config.within_full.symm ▸ hbuild)
      have htally : ∀ name, m.Defines name →
          (history' name).tally = (history name).tally.after config := by
        intro name hdefines
        rw [(hshape name hdefines).2, Shape.tally_lowerIf hbuild]
      by_cases hfits : config.Fits compress
      · obtain ⟨report, s', hrun, hcompletes⟩ := hok hfits
        rw [hrun]
        exact ⟨history', hcompletes.follows, fun name hdefines =>
          htally name (hcompletes.defines_iff.1 hdefines)⟩
      · obtain ⟨length, s', hrun, rfl⟩ := hfail hfits
        rw [hrun]
        exact ⟨history', hfollows, htally⟩

/-- **One stage in the history and in the tally.** -/
theorem follows (h : s.module.Follows history) {stage : Stage} (hstage : stage.Unreserved)
    {before : String → Tally} (hbefore : ∀ name, (history name).tally = before name) :
    ∃ history', (stage.perform s).module.Follows history' ∧
      ∀ name, (history' name).tally = stage.tally s before name := by
  cases stage with
  | build step =>
      have hstep : step.Unreserved := hstage
      refine ⟨_, BuildStep.follows h hstep, fun name => ?_⟩
      rw [tally, ← hbefore, Shape.tally, Shape.tally, BuildStep.pending_recordIn,
        BuildStep.lowered_recordIn]
  | run compress config =>
      obtain ⟨history', hfollows, htally⟩ := follows_run h compress config
      refine ⟨history', hfollows, fun name => ?_⟩
      rw [tally]
      by_cases hdefines : (perform (run compress config) s).module.Defines name
      · rw [if_pos hdefines, htally name hdefines, hbefore]
      · rw [if_neg hdefines, hfollows.undefined name hdefines]
        rfl

end Stage

/-- **The whole work in the history and in the tally.** -/
theorem follows_work {s : Session} {history : History} (h : s.module.Follows history)
    (before : String → Tally) (hbefore : ∀ name, (history name).tally = before name)
    {stages : List Stage} (hstages : ∀ stage ∈ stages, stage.Unreserved) :
    ∃ history', (work stages s).module.Follows history' ∧
      ∀ name, (history' name).tally = tallies stages s before name := by
  induction stages generalizing s history before with
  | nil => exact ⟨history, h, hbefore⟩
  | cons stage stages ih =>
      obtain ⟨hstage, hrest⟩ := List.forall_mem_cons.1 hstages
      obtain ⟨history', hfollows, htally⟩ := Stage.follows h hstage hbefore
      exact ih hfollows _ htally hrest

end SourceCoverage
