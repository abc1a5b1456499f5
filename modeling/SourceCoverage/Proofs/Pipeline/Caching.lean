import SourceCoverage.Proofs.Pipeline.Effects

/-!
# Kept Analyses Are Invisible

A run keeps its analyses from one pass to the next. That this saves work and does nothing else is a
statement about two runs: the run as it is, and one in which every pass starts with nothing at hand,
as a pipeline of its own. The two *end alike*: with the same answer or the same error, and with the
same module and log, in success and in failure.

The comparison has two parts. Most of what a pass does is *blind*: it neither looks at the analyses
at hand nor gets an answer that depends on them, so that it ends alike from any two states that
differ in nothing else. What is left is the reference graph, and coherent analyses give the graph of
the module, whichever they are.

## Main results

* `EndAlike.bind`: operations in a row end alike if each of them does.
* `PassAction.runPass_alike`: a pass ends alike from all coherent analyses.
* `PassAction.coherent_of_runPasses`: before every pass of a run the analyses at hand are those that
  would be computed from the module as it stands.
* `Pipeline.run_alike_runSingly`: the two runs.
-/

namespace SourceCoverage

/-! ### Ends of runs -/

/-- Two runs end alike: with the same answer or the same error, in related states. -/
inductive EndAlike {ε σ τ α : Type} (R : σ → τ → Prop) :
    EStateM.Result ε σ α → EStateM.Result ε τ α → Prop
  | ok {a : α} {s : σ} {t : τ} (h : R s t) : EndAlike R (.ok a s) (.ok a t)
  | error {e : ε} {s : σ} {t : τ} (h : R s t) : EndAlike R (.error e s) (.error e t)

/-- **Operations in a row end alike** if the first ones do, and the next ones from where the first
ones end. -/
theorem EndAlike.bind {ε σ τ α β : Type} {R : σ → τ → Prop} {first : EStateM ε σ α}
    {first' : EStateM ε τ α} {next : α → EStateM ε σ β} {next' : α → EStateM ε τ β} {s : σ} {t : τ}
    (h : EndAlike R (first s) (first' t))
    (hnext : ∀ a s' t', first s = .ok a s' → R s' t' → EndAlike R (next a s') (next' a t')) :
    EndAlike R ((first >>= next) s) ((first' >>= next') t) := by
  cases hfirst : first s with
  | ok a s' =>
      rw [hfirst] at h
      generalize hfirst' : first' t = r at h
      cases h with
      | ok h =>
          rw [bind_of_ok hfirst, bind_of_ok hfirst']
          exact hnext a s' _ hfirst h
  | error e s' =>
      rw [hfirst] at h
      generalize hfirst' : first' t = r at h
      cases h with
      | error h =>
          rw [bind_of_error hfirst, bind_of_error hfirst']
          exact .error h

/-- Ending alike does not depend on which run comes first. -/
theorem EndAlike.symm {ε σ τ α : Type} {R : σ → τ → Prop} {x : EStateM.Result ε σ α}
    {y : EStateM.Result ε τ α} (h : EndAlike R x y) : EndAlike (fun t s => R s t) y x := by
  cases h with
  | ok h => exact .ok h
  | error h => exact .error h

/-- Runs that end alike with a third one, each in its own way, end alike. -/
theorem EndAlike.trans {ε σ τ υ α : Type} {R : σ → τ → Prop} {S : τ → υ → Prop} {T : σ → υ → Prop}
    {x : EStateM.Result ε σ α} {y : EStateM.Result ε τ α} {z : EStateM.Result ε υ α}
    (h : EndAlike R x y) (h' : EndAlike S y z) (hcomp : ∀ s t u, R s t → S t u → T s u) :
    EndAlike T x z := by
  cases h with
  | ok h =>
      cases h' with
      | ok h' => exact .ok (hcomp _ _ _ h h')
  | error h =>
      cases h' with
      | error h' => exact .error (hcomp _ _ _ h h')

/-- Two states of the work of a pipeline that differ in the analyses at hand alone. -/
structure PassState.SameWork (s t : PassState) : Prop where
  module : s.module = t.module
  log : s.log = t.log

/-- The state in which a run of a pipeline begins: without analyses at hand. -/
def PassState.beginning (s : Session) : PassState := { module := s.module, log := s.log }

/-- Two sessions that differ in what the latest run counted alone. -/
structure Session.SameWork (s t : Session) : Prop where
  module : s.module = t.module
  log : s.log = t.log

namespace PassAction

/-! ### Blind operations -/

/-- An operation that ends alike from all states that differ in the analyses at hand alone. -/
def Blind {α : Type} (action : PassAction α) : Prop :=
  ∀ s t : PassState, s.SameWork t → EndAlike PassState.SameWork (action s) (action t)

namespace Blind

variable {α β : Type}

theorem bind {first : PassAction α} {next : α → PassAction β} (h : Blind first)
    (hnext : ∀ a, Blind (next a)) : Blind (first >>= next) := fun s t hst =>
  (h s t hst).bind fun a s' t' _ hst' => hnext a s' t' hst'

theorem pure (a : α) : Blind (pure a) := fun _ _ hst => .ok hst

theorem throw (e : PipelineError) : Blind (throw e : PassAction α) := fun _ _ hst => .error hst

theorem report (event : Event) : Blind (report event) := fun _ _ hst =>
  .ok ⟨hst.module, congrArg (·.push event) hst.log⟩

theorem setModule (m : Module) : Blind (setModule m) := fun _ _ hst => .ok ⟨rfl, hst.log⟩

theorem withAnalyses (f : Analyses → Analyses) : Blind (withAnalyses f) := fun _ _ hst =>
  .ok ⟨hst.module, hst.log⟩

theorem getModule : Blind getModule := by
  rintro ⟨m, a, log⟩ ⟨m', a', log'⟩ ⟨rfl, rfl⟩
  exact .ok ⟨rfl, rfl⟩

/-- Several operations in a row. -/
theorem mapM {action : α → PassAction β} (h : ∀ a, Blind (action a)) (xs : List α) :
    Blind (xs.mapM action) := by
  induction xs with
  | nil => exact pure []
  | cons x xs ih =>
      rw [List.mapM_cons]
      exact (h x).bind fun y => ih.bind fun ys => pure (y :: ys)

theorem settle (change : Change) : Blind (settle change) := by
  cases change with
  | unchanged => exact pure ()
  | changed => exact withAnalyses _

theorem profileFirst (use : Increment) : Blind (profileFirst use) := by
  refine getModule.bind fun m => ?_
  cases m.bytes? use.nameVariable with
  | none => exact throw _
  | some data =>
      refine (setModule _).bind fun _ => ?_
      split
      · exact (report _).bind fun _ => pure _
      · exact (pure ()).bind fun _ => pure _

theorem lowerIncrements (lowering : Lowering) : Blind (lowerIncrements lowering) := by
  refine getModule.bind fun m => ?_
  dsimp only
  split
  · exact pure Change.unchanged
  · exact (mapM profileFirst _).bind fun profiled => getModule.bind fun m =>
      (setModule _).bind fun _ => (report _).bind fun _ => pure Change.changed

theorem stripDeadPrototypes : Blind stripDeadPrototypes :=
  getModule.bind fun _ => (setModule _).bind fun _ => pure _

end Blind

/-! ### Passes -/

variable {s t : PassState}

/-- From coherent analyses, whichever they are, a pass is given the same reference graph. -/
theorem referenceGraph_alike (h : s.SameWork t) (hs : s.analyses.Coherent s.module)
    (ht : t.analyses.Coherent t.module) :
    EndAlike PassState.SameWork (referenceGraph s) (referenceGraph t) := by
  have hgraph : s.module.referenceGraph = t.module.referenceGraph := by rw [h.module]
  rw [referenceGraph_run hs, referenceGraph_run ht, hgraph]
  exact .ok ⟨h.module, h.log⟩

/-- A pass that looks at the reference graph before anything else, and not again. -/
theorem alike_of_graph {α : Type} {next : ReferenceGraph → PassAction α}
    (hnext : ∀ graph, Blind (next graph)) (h : s.SameWork t) (hs : s.analyses.Coherent s.module)
    (ht : t.analyses.Coherent t.module) :
    EndAlike PassState.SameWork ((referenceGraph >>= next) s) ((referenceGraph >>= next) t) :=
  (referenceGraph_alike h hs ht).bind fun graph s' t' _ hst' => hnext graph s' t' hst'

/-- Deleting the dead symbols. -/
theorem removeDeadSymbols_alike (h : s.SameWork t) (hs : s.analyses.Coherent s.module)
    (ht : t.analyses.Coherent t.module) :
    EndAlike PassState.SameWork (removeDeadSymbols s) (removeDeadSymbols t) := by
  refine alike_of_graph (fun graph => ?_) h hs ht
  refine Blind.getModule.bind fun m => (Blind.setModule _).bind fun _ => ?_
  dsimp only
  split
  · exact .pure Change.unchanged
  · exact (Blind.report _).bind fun _ => .pure Change.changed

/-- Verification. -/
theorem verify_alike (h : s.SameWork t) (hs : s.analyses.Coherent s.module)
    (ht : t.analyses.Coherent t.module) :
    EndAlike PassState.SameWork (verify s) (verify t) := by
  refine alike_of_graph (fun graph => Blind.getModule.bind fun m => ?_) h hs ht
  cases m.offence? graph with
  | none => exact .pure ()
  | some offence => exact .throw _

/-- What a pass does to the module. -/
theorem perform_alike (pass : Pass) (h : s.SameWork t) (hs : s.analyses.Coherent s.module)
    (ht : t.analyses.Coherent t.module) :
    EndAlike PassState.SameWork (perform pass s) (perform pass t) := by
  have hdelete : EndAlike PassState.SameWork
      ((do settle (← removeDeadSymbols); stripDeadPrototypes : PassAction Change) s)
      ((do settle (← removeDeadSymbols); stripDeadPrototypes : PassAction Change) t) :=
    (removeDeadSymbols_alike h hs ht).bind fun change s' t' _ hst' =>
      ((Blind.settle change).bind fun _ => Blind.stripDeadPrototypes) s' t' hst'
  cases pass with
  | lowerIncrements lowering => exact Blind.lowerIncrements lowering s t h
  | removeDeadSymbols => exact removeDeadSymbols_alike h hs ht
  | stripDeadPrototypes => exact Blind.stripDeadPrototypes s t h
  | verify => exact (verify_alike h hs ht).bind fun _ s' t' _ hst' => .ok hst'
  | noOp => exact .ok h
  | optimize level =>
      cases level with
      | O0 => exact .ok h
      | O1 => exact hdelete
      | O2 => exact hdelete
      | O3 => exact hdelete
      | Os => exact hdelete
      | Oz => exact hdelete

/-- **A pass ends alike from all coherent analyses**, none at hand included. -/
theorem runPass_alike (pass : Pass) (h : s.SameWork t) (hs : s.analyses.Coherent s.module)
    (ht : t.analyses.Coherent t.module) :
    EndAlike PassState.SameWork (runPass pass s) (runPass pass t) := by
  have hentered : EndAlike PassState.SameWork
      ((do settle (← perform pass) : PassAction Unit) { s with
        analyses := s.analyses.enterPass
        log := s.log.push (.runningPass pass.text s.module.name) })
      ((do settle (← perform pass) : PassAction Unit) { t with
        analyses := t.analyses.enterPass
        log := t.log.push (.runningPass pass.text t.module.name) }) := by
    refine EndAlike.bind (perform_alike pass ⟨h.module, ?_⟩ (hs.withStats _) (ht.withStats _))
      fun change s' t' _ hst' => Blind.settle change s' t' hst'
    rw [h.module, h.log]
  exact hentered

/-! ### Runs -/

/-- A pass that succeeds leaves coherent analyses. -/
theorem coherent_of_runPass {pass : Pass} {s' : PassState} (hs : s.analyses.Coherent s.module)
    (h : runPass pass s = .ok () s') : s'.analyses.Coherent s'.module := by
  obtain ⟨hok, herror⟩ := runPass_spec pass s hs
  cases heffect : pass.effect s.module with
  | ok m =>
      obtain ⟨s₁, hrun, rfl, hcoherent⟩ := hok m heffect
      obtain ⟨-, rfl⟩ := EStateM.Result.ok.inj (hrun.symm.trans h)
      exact hcoherent
  | error e =>
      obtain ⟨s₁, hrun⟩ := herror e heffect
      cases hrun.symm.trans h

/-- **Before every pass of a run the analyses at hand are coherent**: those passes that have run
until then leave them so. -/
theorem coherent_of_runPasses {passes : List Pass} {s' : PassState}
    (hs : s.analyses.Coherent s.module) (h : runPasses passes s = .ok () s') :
    s'.analyses.Coherent s'.module := by
  induction passes generalizing s with
  | nil =>
      obtain ⟨-, rfl⟩ := EStateM.Result.ok.inj h
      exact hs
  | cons pass passes ih =>
      replace h : (runPass pass >>= fun _ => runPasses passes) s = .ok () s' := h
      cases hrun : runPass pass s with
      | ok a s₁ =>
          rw [bind_of_ok hrun] at h
          exact ih (coherent_of_runPass hs hrun) h
      | error e s₁ =>
          rw [bind_of_error hrun] at h
          cases h

end PassAction

namespace Pipeline

/-- Runs passes as pipelines of their own, so that each starts without analyses at hand. -/
def runSingly (passes : List Pass) : Action PipelineError Unit :=
  passes.forM fun pass => Pipeline.run ⟨[pass]⟩

/-- The work of a pipeline has come as far as that of a session. -/
structure AsFarAs (s : PassState) (t : Session) : Prop where
  module : s.module = t.module
  log : s.log = t.log

variable {s : PassState} {t : Session}

/-- A run ends like its passes do from the state without analyses at hand. -/
theorem run_alike_runPasses (pipeline : Pipeline) (t : Session) :
    EndAlike (fun t s => AsFarAs s t) (pipeline.run t)
      (PassAction.runPasses pipeline.passes (.beginning t)) := by
  change EndAlike _ (pipeline.run t)
    (PassAction.runPasses pipeline.passes { module := t.module, log := t.log })
  rw [Pipeline.run]
  cases PassAction.runPasses pipeline.passes { module := t.module, log := t.log } with
  | ok a state => exact .ok ⟨rfl, rfl⟩
  | error e state => exact .error ⟨rfl, rfl⟩

/-- A pass in a run ends like the pipeline of that pass alone. -/
theorem runPass_alike_run (pass : Pass) (h : AsFarAs s t) (hs : s.analyses.Coherent s.module) :
    EndAlike AsFarAs (PassAction.runPass pass s) (Pipeline.run ⟨[pass]⟩ t) := by
  have hpass : EndAlike PassState.SameWork (PassAction.runPass pass s)
      (PassAction.runPass pass (.beginning t)) :=
    PassAction.runPass_alike pass ⟨h.module, h.log⟩ hs (.void _)
  have hone : PassAction.runPasses [pass] = PassAction.runPass pass := bind_pure_unit
  have hrun := run_alike_runPasses ⟨[pass]⟩ t
  rw [hone] at hrun
  exact hpass.trans hrun.symm fun _ _ _ hwork hfar =>
    ⟨hwork.module.trans hfar.module, hwork.log.trans hfar.log⟩

/-- Passes in a run end like the pipelines of each of them alone, one after another. -/
theorem runPasses_alike_runSingly (passes : List Pass) (h : AsFarAs s t)
    (hs : s.analyses.Coherent s.module) :
    EndAlike AsFarAs (PassAction.runPasses passes s) (runSingly passes t) := by
  induction passes generalizing s t with
  | nil => exact .ok h
  | cons pass passes ih =>
      exact (runPass_alike_run pass h hs).bind fun _ s' t' hrun h' =>
        ih h' (PassAction.coherent_of_runPass hs hrun)

/-- **Kept analyses are invisible.** A run ends like the runs of its passes one after another, each
without analyses at hand at its start: with the same answer or error, the same module and the same
log. And before every pass of a run the references of functions and the reference graph that are at
hand are those that would be computed from the module as it stands. -/
theorem run_alike_runSingly (pipeline : Pipeline) (s : Session) :
    EndAlike Session.SameWork (pipeline.run s) (runSingly pipeline.passes s) ∧
    ∀ before pass after, pipeline.passes = before ++ pass :: after → ∀ state,
      PassAction.runPasses before (.beginning s) = .ok () state →
        state.analyses.Coherent state.module := by
  refine ⟨?_, fun before pass after _ state hrun => PassAction.coherent_of_runPasses (.void _) hrun⟩
  have hsingly : EndAlike AsFarAs (PassAction.runPasses pipeline.passes (.beginning s))
      (runSingly pipeline.passes s) :=
    runPasses_alike_runSingly pipeline.passes ⟨rfl, rfl⟩ (.void _)
  exact (run_alike_runPasses pipeline s).trans hsingly fun _ _ _ hfar hfar' =>
    ⟨hfar.module.symm.trans hfar'.module, hfar.log.symm.trans hfar'.log⟩

end Pipeline

end SourceCoverage
