import SourceCoverage.Proofs.Emitted
import SourceCoverage.Proofs.Failures
import SourceCoverage.Proofs.Module.Edits

/-!
# The Life of a Module

A module may be worked on for as long as one likes: operations and runs follow one another in any
order, and those that fail are passed over. A run ends where its passes end, be it that the text
cannot be read or that one of them fails; or, with coverage, where the emission ends, which edits
the module that the passes lead to. So a run keeps what is kept by the steps of passes and by the
edits of emissions, and one that succeeds leaves nothing to be guessed: with coverage there are no
increments any more when the emission begins.

## Main results

* `Action.emitWith_keeps`: what the edits of an emission keep is kept by the emission.
* `Action.runEnd_runWith`, `Action.runWith_keeps`: where a run ends, and what it keeps.
* `Action.made_of_runWith`, `Action.effectOf_of_runWith_plain`: what a run that succeeds has done.
-/

namespace SourceCoverage

open Relation

/-! ### Emissions as edits -/

/-- The edits of an emission into a module: the header, a record for each counter array, the entry
point of the runtime and the reference to it. -/
inductive CoverageOptions.Emits (options : CoverageOptions) (m : Module) : Edit → Prop
  | header {header : TableHeader} {filenames : Bytes} :
      Emits options m (.defineVariable (headerVariable options header filenames))
  | record {function : String} {record : FunctionRecord} : function ∈ m.counted →
      Emits options m (.defineVariable (recordVariable options function record))
  | runtime : Emits options m (.declareFunction Symbol.profileRuntime)
  | runtimeUser : Emits options m (.defineVariable runtimeUserVariable)

/-- What an emission puts into the module: no counter arrays, and records for functions that have
one, which are anchored. -/
theorem CoverageOptions.Emits.runtime_or_defineVariable {options : CoverageOptions} {m : Module}
    {e : Edit} (h : options.Emits m e) : e = .declareFunction Symbol.profileRuntime ∨
      ∃ v, e = .defineVariable v ∧ Symbol.countersOwner? v.name = none ∧
        ∀ function, v.name = Symbol.coverageRecord function →
          function ∈ m.counted ∧ Global.Anchored ⟨v, none⟩ := by
  have hnone (symbol : OwnSymbol) (hsymbol : ∀ function, symbol ≠ .counters function) :=
    OwnSymbol.countersOwner?_eq_none symbol hsymbol
  cases h with
  | header =>
      refine .inr ⟨_, rfl, hnone .coverageMapping nofun, fun function heq => ?_⟩
      cases (OwnSymbol.name_inj (a := .coverageMapping) (b := .coverageRecord function)).1 heq
  | record hfunction =>
      refine .inr ⟨_, rfl, hnone (.coverageRecord _) nofun, fun function heq => ?_⟩
      obtain ⟨rfl⟩ := (OwnSymbol.name_inj (a := .coverageRecord _)
        (b := .coverageRecord function)).1 heq
      exact ⟨hfunction, rfl, .inr rfl⟩
  | runtime => exact .inl rfl
  | runtimeUser =>
      refine .inr ⟨_, rfl, hnone .profileRuntimeUser nofun, fun function heq => ?_⟩
      cases (OwnSymbol.name_inj (a := .profileRuntimeUser) (b := .coverageRecord function)).1 heq

/-- The edits of an emission write no instructions. -/
theorem CoverageOptions.Emits.not_writes {options : CoverageOptions} {m : Module} {e : Edit}
    (h : options.Emits m e) (i : Instruction) : ¬e.Writes i := by
  intro hwrites
  rcases h.runtime_or_defineVariable with rfl | ⟨v, rfl, -⟩ <;> cases hwrites

namespace Action

variable {P : Module → Prop} {options : CoverageOptions} {m₀ : Module}

/-- The result of a computation that does not touch the session. -/
theorem preserves_ofExcept {ε α : Type} (result : Except ε α) : Preserves P (ofExcept result) := by
  cases result with
  | ok a => exact .pure a fun _ _ _ => trivial
  | error e => exact .throw e

/-- Encoding the filenames table. -/
theorem keeps_encodeFilenames {before : Module → Prop} (compress : Bytes → Bytes)
    (table : FilenameTable) (compressing : Bool) :
    Keeps P before (encodeFilenames (ε := CoverageError) compress table compressing)
      fun _ => before := by
  intro s hs hbefore
  obtain ⟨log, hrun⟩ := encodeFilenames_spec (ε := CoverageError) compress table compressing s
  rw [hrun]
  exact ⟨hs, hbefore⟩

variable (h : ∀ e, options.Emits m₀ e → e.Keeps P)
include h

/-- Emitting the header, which is no counter array. -/
theorem keeps_emitHeader (filenames : EncodedFilenames) :
    Keeps P (· = m₀) (emitHeader options filenames) fun _ m => m.counted = m₀.counted := by
  have hdefine (header : TableHeader) : Keeps P (· = m₀)
      (defineVariable (headerVariable options header filenames.blob))
      fun _ m => m.counted = m₀.counted := by
    refine keeps_defineVariable fun m m' hok hm hm₀ => ⟨h _ .header m m' hok hm, ?_⟩
    obtain ⟨-, -, rfl⟩ := Module.defineVariable_eq_ok_iff.1 hok
    rw [Module.counted_putVariable_headerVariable, hm₀]
  rw [emitHeader]
  cases hlength : filenamesLength filenames.blob with
  | error e => exact fun s hs _ => hs
  | ok length =>
      exact (hdefine _).bind fun _ => (Keeps.report _).bind fun _ => .pure _ fun _ _ => id

/-- Emitting the record of a function with a counter array. -/
theorem preserves_emitRecord {function : String} (hfunction : function ∈ m₀.counted)
    (hash : UInt64) : Preserves P (emitRecord options hash function) := by
  have hencode : Preserves P (encodeMapping placeholderMapping) := by
    intro s hs _
    obtain ⟨log, hrun⟩ := encodeMapping_spec s
    rw [hrun]
    exact ⟨hs, trivial⟩
  exact hencode.bind fun mapping => (preserves_ofExcept _).bind fun record =>
    (preserves_defineVariable (h _ (.record hfunction))).bind fun _ =>
      (Keeps.report _).bind fun _ => .pure _ fun _ _ _ => trivial

/-- Emitting the records of all counter arrays among some global variables. -/
theorem preserves_emitRecords (hash : UInt64) {globals : List String}
    (hglobals : ∀ function ∈ globals.filterMap Symbol.countersOwner?, function ∈ m₀.counted) :
    Preserves P (emitRecords options hash globals) := by
  induction globals with
  | nil => exact .pure _ fun _ _ _ => trivial
  | cons global globals ih =>
      rw [emitRecords]
      cases howner : Symbol.countersOwner? global with
      | none =>
          rw [List.filterMap_cons_none howner] at hglobals
          exact (Keeps.report _).bind fun _ => (ih hglobals).bind fun _ =>
            .pure _ fun _ _ _ => trivial
      | some function =>
          rw [List.filterMap_cons_some howner] at hglobals
          obtain ⟨hfunction, hrest⟩ := List.forall_mem_cons.1 hglobals
          exact (preserves_emitRecord h hfunction hash).bind fun _ => (ih hrest).bind fun _ =>
            .pure _ fun _ _ _ => trivial

/-- **What the edits of an emission keep is kept by the emission**, however it compresses. -/
theorem keeps_emitWith (compress : Bytes → Bytes) :
    Keeps P (· = m₀) (emitWith compress options) fun _ _ => True := by
  have hruntime : Preserves P referToRuntime :=
    (preserves_attempt (e := .declareFunction Symbol.profileRuntime) (h _ .runtime)).bind fun _ =>
      preserves_defineVariable (h _ .runtimeUser)
  refine (keeps_encodeFilenames _ _ _).bind fun filenames => ?_
  refine (keeps_emitHeader h filenames).bind fun header => .getModule fun m => ?_
  rintro s hs ⟨rfl, hcounted⟩
  have hrecords : Preserves P (emitRecords options filenames.hash s.module.globalNames) :=
    preserves_emitRecords h _ fun function hfunction => hcounted ▸ hfunction
  have hreturn (emitted : List EmittedRecord × List String) : Preserves P (do
      report (.coverageEmitted emitted.1.length emitted.2.length options.objectFormat.text)
      return ⟨header, filenames.blob, filenames.hash, emitted.1, emitted.2⟩ :
        Action CoverageError EmissionSummary) :=
    (Keeps.report _).bind fun _ => .pure _ fun _ _ _ => trivial
  exact (hrecords.bind fun emitted => hruntime.bind fun _ => hreturn emitted) s hs trivial

omit h in
/-- What the edits of an emission keep holds where it ends if it holds where it begins. -/
theorem emitWith_keeps {s : Session} (compress : Bytes → Bytes)
    (h : ∀ e, options.Emits s.module e → e.Keeps P) (hs : P s.module) :
    P (endOf (emitWith compress options s)).module :=
  (keeps_emitWith h compress).endOf hs rfl

end Action

/-! ### Runs -/

/-- Where a run leads the module: to where its passes end, or through them into an emission. -/
inductive RunEnd (compress : Bytes → Bytes) (config : RunConfig) (m : Module) : Module → Prop
  | passed {m' : Module} : ReflTransGen Module.PassStep m m' → RunEnd compress config m m'
  | emitted {options : CoverageOptions} {pipeline : Pipeline} {s : Session} :
      config.coverage = some options → config.pipeline = .ok pipeline →
      effectOf pipeline.passes m = .ok s.module →
      RunEnd compress config m (endOf (Action.emitWith compress options s)).module

namespace Action

variable {compress : Bytes → Bytes}

/-- Where a run ends whose passes succeed: where they lead to, or where an emission into this module
ends. -/
theorem module_endOf_runWith {config : RunConfig} {pipeline : Pipeline} {s : Session} {m : Module}
    (hbuild : config.pipeline = .ok pipeline)
    (heffect : effectOf pipeline.passes s.module = .ok m) :
    (endOf (runWith compress .full config s)).module = m ∨
      ∃ options s₁, config.coverage = some options ∧ s₁.module = m ∧
        (endOf (runWith compress .full config s)).module
          = (endOf (emitWith compress options s₁)).module := by
  obtain ⟨passes, coverage⟩ := config
  cases coverage with
  | none =>
      obtain ⟨report, s', hrun, hmodule⟩ := runWith_plain_spec .full hbuild heffect
      rw [hrun]
      exact .inl hmodule
  | some options =>
      obtain ⟨s₁, hmodule, hok, herror⟩ := runWith_coverage_spec .full rfl hbuild heffect
      refine .inr ⟨options, s₁, rfl, hmodule, ?_⟩
      cases hemit : emitWith compress options s₁ with
      | ok summary s₂ =>
          obtain ⟨report, s', hrun, -, hmodule⟩ := hok summary s₂ hemit
          rw [hrun]
          exact hmodule
      | error e s₂ =>
          rw [herror e s₂ hemit]
          rfl

/-- **Where a run ends.** -/
theorem runEnd_runWith (compress : Bytes → Bytes) (config : RunConfig) (s : Session) :
    RunEnd compress config s.module (endOf (runWith compress .full config s)).module := by
  cases hbuild : config.pipeline with
  | error e =>
      obtain ⟨log, hrun⟩ := runWith_of_build_error hbuild s
      rw [hrun]
      exact .passed .refl
  | ok pipeline =>
      cases heffect : effectOf pipeline.passes s.module with
      | error e =>
          obtain ⟨log, s', hpasses, hrun⟩ := runWith_of_passes_error hbuild heffect
          have hsteps := pipeline.run_steps { s with log }
          rw [hpasses] at hsteps
          rw [hrun]
          exact .passed hsteps
      | ok m =>
          rcases module_endOf_runWith hbuild heffect with hend | ⟨options, s₁, hcoverage, rfl, hend⟩
          · rw [hend]
            exact .passed (steps_of_effectOf heffect)
          · rw [hend]
            exact .emitted hcoverage hbuild heffect

/-- **What a run keeps**: whatever the steps of passes and the edits of emissions keep. -/
theorem runWith_keeps {P : Module → Prop} {config : RunConfig} {s : Session}
    (hstep : ∀ m m', Module.PassStep m m' → P m → P m')
    (hedit : ∀ options m e, config.coverage = some options → CoverageOptions.Emits options m e →
      e.Keeps P) (hs : P s.module) : P (endOf (runWith compress .full config s)).module := by
  have hend := runEnd_runWith compress config s
  generalize (endOf (runWith compress .full config s)).module = m' at hend ⊢
  cases hend with
  | passed hsteps => exact Module.keeps_of_steps hstep hsteps hs
  | emitted hcoverage _ heffect =>
      exact emitWith_keeps compress (fun e he => hedit _ _ e hcoverage he)
        (Module.keeps_of_steps hstep (steps_of_effectOf heffect) hs)

variable {s s' : Session} {passes : String} {options : CoverageOptions} {report : RunReport}

/-- **What a run with coverage that succeeds has done**: it has lowered all increments, and then
made an emission into the module that its passes lead to. -/
theorem made_of_runWith (h : runWith compress .full ⟨passes, some options⟩ s = .ok report s') :
    ∃ pipeline m summary, (RunConfig.mk passes (some options)).pipeline = .ok pipeline ∧
      effectOf pipeline.passes s.module = .ok m ∧ m.increments = [] ∧
      report.emission = some summary ∧
      summary.Made options (options.filenames compress) m s'.module := by
  cases hbuild : (RunConfig.mk passes (some options)).pipeline with
  | error e =>
      obtain ⟨log, hrun⟩ := runWith_of_build_error hbuild s
      cases hrun.symm.trans h
  | ok pipeline =>
      cases heffect : effectOf pipeline.passes s.module with
      | error e =>
          obtain ⟨log, s₁, -, hrun⟩ := runWith_of_passes_error hbuild heffect
          cases hrun.symm.trans h
      | ok m =>
          obtain ⟨s₁, rfl, hok, herror⟩ := runWith_coverage_spec .full rfl hbuild heffect
          cases hemit : emitWith compress options s₁ with
          | error e s₂ => cases (herror e s₂ hemit).symm.trans h
          | ok summary s₂ =>
              obtain ⟨report', s₃, hrun, hemission, hmodule⟩ := hok summary s₂ hemit
              obtain ⟨rfl, rfl⟩ := EStateM.Result.ok.inj (hrun.symm.trans h)
              obtain ⟨parsed, -, rfl⟩ := pipeline_coverage_eq_ok_iff.1 hbuild
              have hnone := increments_effectOf heffect
              refine ⟨_, s₁.module, summary, rfl, heffect, hnone, hemission, ?_⟩
              rw [hmodule]
              exact made_of_emitWith hemit

/-- **A run with coverage over a module that follows a history succeeds**, if its text can be read
and its filenames table is short enough. -/
theorem exists_runWith_coverage {history : History} {pipeline : Pipeline}
    (h : s.module.Follows history) (hparse : Pipeline.parse passes = .ok pipeline)
    (hfits : options.Fits compress) : ∃ report s' m summary history',
      runWith compress .full ⟨passes, some options⟩ s = .ok report s' ∧
      effectOf (.lowerIncrements ⟨options.atomicCounters⟩ :: pipeline.passes) s.module = .ok m ∧
      EmissionSummary.Made options (options.filenames compress) m summary s'.module ∧
      s'.module.Follows history' := by
  have hbuild : ((RunConfig.mk passes (some options)).within .full).pipeline = .ok _ :=
    pipeline_coverage_eq_ok_iff.2 ⟨pipeline, hparse, rfl⟩
  obtain ⟨_, _, -, -, -, hok, -⟩ := runWith_spec .full rfl h hbuild
  obtain ⟨report, s', hrun, hcompletes⟩ := hok fun other hother => Option.some.inj hother ▸ hfits
  obtain ⟨pipeline', m, summary, hbuild', heffect, -, -, hmade⟩ := made_of_runWith hrun
  obtain rfl := Except.ok.inj (hbuild.symm.trans hbuild')
  exact ⟨report, s', m, summary, _, hrun, heffect, hmade, hcompletes.follows⟩

/-- **What a run without coverage that succeeds has done**: what its passes do. -/
theorem effectOf_of_runWith_plain (h : runWith compress .full ⟨passes, none⟩ s = .ok report s') :
    ∃ pipeline, Pipeline.parse passes = .ok pipeline ∧
      effectOf pipeline.passes s.module = .ok s'.module := by
  cases hbuild : (RunConfig.mk passes none).pipeline with
  | error e =>
      obtain ⟨log, hrun⟩ := runWith_of_build_error hbuild s
      cases hrun.symm.trans h
  | ok pipeline =>
      cases heffect : effectOf pipeline.passes s.module with
      | error e =>
          obtain ⟨log, s₁, -, hrun⟩ := runWith_of_passes_error hbuild heffect
          cases hrun.symm.trans h
      | ok m =>
          obtain ⟨report', s₁, hrun, rfl⟩ := runWith_plain_spec .full hbuild heffect
          obtain ⟨-, rfl⟩ := EStateM.Result.ok.inj (hrun.symm.trans h)
          exact ⟨pipeline, pipeline_plain_eq_ok_iff.1 hbuild, heffect⟩

end Action

end SourceCoverage
