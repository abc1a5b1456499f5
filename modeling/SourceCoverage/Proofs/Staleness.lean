import Mathlib.Data.List.Induction
import SourceCoverage.Proofs.Lifetime

/-!
# Records Outlive Their Counters

An emission adds records and takes none away, and neither do passes: a record stands in a section
and has no owner, so that it is alive whatever becomes of the function that it describes. If a
module is run with coverage more than once, the records of the last run are thus those of the
functions that have a counter array now, and those of functions that had one at the end of an
earlier run with coverage that left a record for them.

A record is only lost if it is taken for the name variable of an increment, and only comes into the
module otherwise if it is put there; the tasks considered here do neither.

## Main results

* `Module.PinsRecords.step`, `Operation.keepsRecords`: what leaves the records as they are.
* `Task.coverageRecord_mem_iff`: the records after a task.
* `coverageRecord_mem_performAll_iff`: the records after several tasks.
* `Action.coverageRecord_mem_iff_of_run`: the records after a run with coverage that succeeds.
-/

namespace SourceCoverage

open Relation

/-! ### Records that nothing touches -/

/-- Whether a name is that of a coverage record. -/
def Symbol.IsRecord (name : String) : Prop := ∃ function, name = coverageRecord function

namespace Module

variable {m₀ m m' : Module} {function : String}

/-- Whether the records of a module are out of the reach of passes. -/
def PinsRecords (m : Module) : Prop :=
  ∀ function, Symbol.coverageRecord function ∈ m.globalNames →
    m.Pinned (Symbol.coverageRecord function)

/-- A module without records has none in reach. -/
theorem pinsRecords_of_fresh (h : ∀ function, Symbol.coverageRecord function ∉ m.globalNames) :
    m.PinsRecords := fun function hmem => absurd hmem (h function)

/-- A record is coverage data. -/
theorem isCoverageData_coverageRecord (function : String) :
    Symbol.isCoverageData (Symbol.coverageRecord function) :=
  Symbol.isCoverageData_iff.2 (.inr (.inl ⟨function, rfl⟩))

/-- A name is that of a global variable exactly if some variable is left when all of other names are
filtered out. -/
theorem mem_globalNames_of_filter {name : String}
    (h : m'.globals.filter (·.name = name) = m.globals.filter (·.name = name)) :
    name ∈ m'.globalNames ↔ name ∈ m.globalNames := by
  have hfilter : ∀ m : Module, name ∈ m.globalNames ↔ m.globals.filter (·.name = name) ≠ [] := by
    intro m
    simp [globalNames, List.filter_eq_nil_iff]
  rw [hfilter, hfilter, h]

/-- Whether a module has the same records as another one, all of them out of reach. -/
structure KeepsRecords (m₀ m : Module) : Prop where
  pinned : m.PinsRecords
  same : ∀ function, Symbol.coverageRecord function ∈ m.globalNames ↔
    Symbol.coverageRecord function ∈ m₀.globalNames

/-- **A step of a pass leaves records as they are** that are out of its reach. -/
theorem KeepsRecords.step (h : KeepsRecords m₀ m) (hstep : PassStep m m') :
    KeepsRecords m₀ m' := by
  have hnew : ∀ function, Symbol.coverageRecord function ∈ m'.globalNames →
      Symbol.coverageRecord function ∈ m.globalNames := by
    intro function hmem
    obtain ⟨g, hg, hname⟩ := List.mem_map.1 hmem
    have hdata : g ∈ m'.coverageData :=
      List.mem_filter.2 ⟨hg, hname ▸ isCoverageData_coverageRecord function⟩
    have hold := (List.mem_filter.1 (hstep.sublist_coverageData.subset hdata)).1
    exact hname ▸ List.mem_map_of_mem hold
  refine ⟨fun function hmem => ((h.pinned function (hnew function hmem)).step hstep).2,
    fun function => ?_⟩
  rw [← h.same]
  refine ⟨hnew function, fun hmem => ?_⟩
  exact (mem_globalNames_of_filter ((h.pinned function hmem).step hstep).1).2 hmem

/-- Whether a function has both a counter array and a record. -/
def Described (m : Module) (function : String) : Prop :=
  function ∈ m.counted ∧ Symbol.coverageRecord function ∈ m.globalNames

end Module

/-! ### Operations that spare records -/

/-- Whether an edit spares records: it does not put a variable of such a name into the module, and
inserts no increment that takes one for a name variable. -/
def Edit.SparesRecords : Edit → Prop
  | defineVariable v => ¬Symbol.IsRecord v.name
  | putOwned v _ => ¬Symbol.IsRecord v.name
  | insertIncrement _ _ increment => ¬Symbol.IsRecord increment.nameVariable
  | _ => True

/-- Whether an operation spares records. -/
def Operation.SparesRecords : Operation → Prop
  | defineVariable v => ¬Symbol.IsRecord v.name
  | insert _ calls => ∀ call ∈ calls, ¬Symbol.IsRecord call.2.nameVariable
  | _ => True

/-- Whether a task spares records. -/
def Task.SparesRecords : Task → Prop
  | operation op => op.SparesRecords
  | putOwned v _ => ¬Symbol.IsRecord v.name
  | run _ _ => True

/-- A symbol of instrumentation of another kind is no record. -/
theorem OwnSymbol.not_isRecord (symbol : OwnSymbol)
    (h : ∀ function, symbol ≠ .coverageRecord function) : ¬Symbol.IsRecord symbol.name :=
  fun ⟨function, heq⟩ => h function (OwnSymbol.name_inj.1 heq)

/-- The edits of an operation that spares records spare them. -/
theorem Operation.Makes.sparesRecords {m : Module} {operation : Operation} {e : Edit}
    (h : operation.Makes m e) (hoperation : operation.SparesRecords) : e.SparesRecords := by
  have hname : ∀ function, ¬Symbol.IsRecord (Symbol.nameVariable function) := fun function =>
    OwnSymbol.not_isRecord (.nameVariable function) nofun
  have hpreparation : ∀ function, ∀ e ∈ preparation function, e.SparesRecords := by
    intro function e he
    rcases List.mem_pair.1 he with rfl | rfl
    · trivial
    · exact hname function
  cases h with
  | addFunction => trivial
  | declareFunction => trivial
  | addCall => trivial
  | instrument _ he => exact hpreparation _ e he
  | count => exact hname _
  | declareIntrinsic => trivial
  | defineVariable => exact hoperation
  | prepare _ he => exact hpreparation _ e he
  | insert hcall => exact hoperation _ hcall

namespace Module

variable {m₀ m m' : Module}

/-- An edit that spares records leaves them as they are. -/
theorem KeepsRecords.edit (h : KeepsRecords m₀ m) {e : Edit} (he : e.SparesRecords)
    (hok : e.apply m = .ok m') : KeepsRecords m₀ m' := by
  have hglobals : ∀ function, m'.globals.filter (·.name = Symbol.coverageRecord function)
      = m.globals.filter (·.name = Symbol.coverageRecord function) := by
    intro function
    have hother {v : Variable} (hv : ¬Symbol.IsRecord v.name) :
        decide (v.name = Symbol.coverageRecord function) = false :=
      decide_eq_false fun heq => hv ⟨function, heq⟩
    rcases e.globals_or_put hok with hsame | ⟨v, rfl, -, rfl⟩ | ⟨v, owner, rfl, rfl⟩
    · rw [hsame]
    · exact filter_globals_putVariable (q := (decide <| · = Symbol.coverageRecord function))
        (hother he)
    · exact filter_globals_putOwned (q := (decide <| · = Symbol.coverageRecord function))
        (hother he) owner
  have hunused : ∀ function, Symbol.coverageRecord function ∉ m.nameVariables →
      Symbol.coverageRecord function ∉ m'.nameVariables := by
    intro function hnot hmem
    obtain ⟨increment, hincrement, hname⟩ := List.mem_map.1 hmem
    obtain ⟨i, hi, hsome⟩ := mem_increments_iff_has.1 hincrement
    rcases e.has_of_apply hok hi with hold | hwrites
    · exact hnot (hname ▸ List.mem_map_of_mem (mem_increments_iff_has.2 ⟨i, hold, hsome⟩))
    · cases hwrites with
      | ret => cases hsome
      | call => cases hsome
      | increment =>
          rw [Instruction.increment?] at hsome
          split at hsome
          · obtain rfl := Option.some.inj hsome
            exact he ⟨function, hname⟩
          · cases hsome
  have hsame : ∀ function, Symbol.coverageRecord function ∈ m'.globalNames ↔
      Symbol.coverageRecord function ∈ m.globalNames := fun function =>
    mem_globalNames_of_filter (hglobals function)
  refine ⟨fun function hmem => ?_, fun function => (hsame function).trans (h.same function)⟩
  have hpinned := h.pinned function ((hsame function).1 hmem)
  obtain ⟨g, hg, hname, hanchored⟩ := hpinned.anchored
  have hleft : g ∈ m'.globals.filter (·.name = Symbol.coverageRecord function) :=
    hglobals function ▸ List.mem_filter.2 ⟨hg, decide_eq_true hname⟩
  exact ⟨hpinned.coverageData, ⟨g, (List.mem_filter.1 hleft).1, hname, hanchored⟩,
    hunused function hpinned.unused⟩

end Module

/-! ### Emissions -/

namespace Module

variable {m₀ m m' : Module}

/-- An anchored variable stays so when another one is put into the module, and so does one in whose
place an anchored one is put. -/
theorem exists_anchored_putVariable {v : Variable} {name : String}
    (h : ∃ g ∈ m.globals, g.name = name ∧ g.Anchored)
    (hv : v.name = name → Global.Anchored ⟨v, none⟩) :
    ∃ g ∈ (m.putVariable v).globals, g.name = name ∧ g.Anchored := by
  obtain ⟨g, hg, rfl, hanchored⟩ := h
  rw [putVariable]
  split
  · rcases mem_updateFirst_of_mem (p := (·.name = v.name))
      (f := fun g => { g with definition := v }) hg with hleft | ⟨hname, hput⟩
    · exact ⟨g, hleft, rfl, hanchored⟩
    · have hname : v.name = g.name := (of_decide_eq_true hname).symm
      exact ⟨_, hput, hname, hanchored.1, (hv hname).2⟩
  · exact ⟨g, List.mem_append_left _ hg, rfl, hanchored⟩

/-- How far an emission into a module without increments can have come: there are still none, the
counter arrays are the same, and the records are more, but only by those of functions that have a
counter array. -/
structure EmitsRecords (m₀ m : Module) : Prop where
  increments : m.increments = []
  counted : m.counted = m₀.counted
  pinned : m.PinsRecords
  old : ∀ function, Symbol.coverageRecord function ∈ m₀.globalNames →
    Symbol.coverageRecord function ∈ m.globalNames
  new : ∀ function, Symbol.coverageRecord function ∈ m.globalNames →
    Symbol.coverageRecord function ∈ m₀.globalNames ∨ function ∈ m₀.counted

/-- **An edit of an emission** goes on with it. -/
theorem EmitsRecords.edit (h : EmitsRecords m₀ m) {options : CoverageOptions} {e : Edit}
    (he : options.Emits m₀ e) (hok : e.apply m = .ok m') : EmitsRecords m₀ m' := by
  have hincrements : m'.increments = [] :=
    List.subset_nil.1 (h.increments ▸ e.increments_subset hok he.not_writes)
  have hunused : ∀ name, name ∉ m'.nameVariables := fun name hmem => by
    rw [nameVariables, hincrements] at hmem
    cases hmem
  rcases e.globals_or_put hok with hsame | ⟨v, hv, -, rfl⟩ | ⟨v, owner, hv, -⟩
  · have hnames : m'.globalNames = m.globalNames := by rw [globalNames, hsame, globalNames]
    have hcounted : m'.counted = m.counted := by
      rw [Module.counted, hnames, Module.counted]
    refine ⟨hincrements, hcounted.trans h.counted, fun function hmem => ?_, ?_, ?_⟩
    · obtain ⟨hdata, hanchored, -⟩ := h.pinned function (hnames ▸ hmem)
      exact ⟨hdata, hsame ▸ hanchored, hunused _⟩
    · rw [hnames]
      exact h.old
    · rw [hnames]
      exact h.new
  · obtain ⟨hnone, hrecord⟩ : Symbol.countersOwner? v.name = none ∧
        ∀ function, v.name = Symbol.coverageRecord function →
          function ∈ m₀.counted ∧ Global.Anchored ⟨v, none⟩ := by
      rcases he.runtime_or_defineVariable with rfl | ⟨w, rfl, hw⟩
      · cases hv
      · cases hv
        exact hw
    refine ⟨hincrements, (counted_putVariable hnone).trans h.counted, fun function hmem => ?_,
      fun function hmem => mem_globalNames_putVariable.2 (.inl (h.old function hmem)),
      fun function hmem => ?_⟩
    · refine ⟨isCoverageData_coverageRecord function, ?_, hunused _⟩
      by_cases hold : Symbol.coverageRecord function ∈ m.globalNames
      · exact exists_anchored_putVariable (h.pinned function hold).anchored
          fun hname => (hrecord function hname).2
      · have hname := (mem_globalNames_putVariable.1 hmem).resolve_left hold
        refine ⟨⟨v, none⟩, ?_, hname.symm, (hrecord function hname.symm).2⟩
        rw [putVariable, if_neg fun hsome => hold (hname ▸ isSome_global?_iff.1 hsome)]
        exact List.mem_append_right _ (List.mem_singleton_self _)
    · rcases mem_globalNames_putVariable.1 hmem with hold | hname
      · exact h.new function hold
      · exact .inr (hrecord function hname.symm).1
  · rcases he.runtime_or_defineVariable with rfl | ⟨w, rfl, -⟩ <;> cases hv

end Module

/-! ### Tasks -/

variable {s : Session}

/-- **The records after a task**: those there were, and after a run with coverage those that it
emitted, of functions that have a counter array. -/
theorem Task.coverageRecord_mem_iff {task : Task} (hs : s.module.PinsRecords)
    (htask : task.SparesRecords) : (task.perform s).module.PinsRecords ∧
      ∀ function, Symbol.coverageRecord function ∈ (task.perform s).module.globalNames ↔
        Symbol.coverageRecord function ∈ s.module.globalNames ∨
        (∃ compress config, task = .run compress config ∧ config.coverageEnabled) ∧
          (task.perform s).module.Described function := by
  have hstart : Module.KeepsRecords s.module s.module := ⟨hs, fun _ => Iff.rfl⟩
  have hkept {m : Module} (h : Module.KeepsRecords s.module m) {emits : Prop} :
      m.PinsRecords ∧ ∀ function, Symbol.coverageRecord function ∈ m.globalNames ↔
        Symbol.coverageRecord function ∈ s.module.globalNames ∨
          emits ∧ m.Described function := by
    refine ⟨h.pinned, fun function => ?_⟩
    rw [← h.same]
    exact (or_iff_left_of_imp fun hdescribed => hdescribed.2.2).symm
  cases task with
  | operation operation =>
      exact hkept (operation.perform_keeps (fun e he m m' hok hm =>
        hm.edit (he.sparesRecords htask) hok) hstart)
  | putOwned v owner => exact hkept (hstart.edit (e := .putOwned v owner) htask rfl)
  | run compress config =>
      have hend := Action.runEnd_runWith compress config s
      rw [Task.perform]
      generalize (endOf (Action.runWith compress .full config s)).module = m' at hend ⊢
      cases hend with
      | passed hsteps =>
          exact hkept (Module.keeps_of_steps (fun m m' hstep hm => hm.step hstep) hsteps hstart)
      | @emitted options pipeline s₁ hcoverage hpipeline heffect =>
          obtain ⟨passes, coverage⟩ := config
          obtain rfl : coverage = some options := hcoverage
          obtain ⟨parsed, -, rfl⟩ := Action.pipeline_coverage_eq_ok_iff.1 hpipeline
          have hpassed : Module.KeepsRecords s.module s₁.module :=
            Module.keeps_of_steps (fun m m' hstep hm => hm.step hstep)
              (steps_of_effectOf heffect) hstart
          have hemitted : Module.EmitsRecords s₁.module
              (endOf (Action.emitWith compress options s₁)).module :=
            Action.emitWith_keeps compress (fun e he m m' hok hm => hm.edit he hok)
              ⟨increments_effectOf heffect, rfl, hpassed.pinned, fun _ => id, fun _ => .inl⟩
          refine ⟨hemitted.pinned, fun function => ⟨fun hmem => ?_, ?_⟩⟩
          · refine (hemitted.new function hmem).imp (hpassed.same function).1 fun hcounted => ?_
            exact ⟨⟨_, _, rfl, rfl⟩, hemitted.counted ▸ hcounted, hmem⟩
          · rintro (hold | ⟨-, -, hmem⟩)
            · exact hemitted.old function ((hpassed.same function).2 hold)
            · exact hmem

/-- **The records after several tasks**: those there were, and those of the functions that had a
counter array and a record at the end of some run with coverage. The induction is on the tasks from
the last one, which adds what it emits. -/
theorem coverageRecord_mem_performAll_iff {tasks : List Task} (hs : s.module.PinsRecords)
    (htasks : ∀ task ∈ tasks, task.SparesRecords) : (performAll tasks s).module.PinsRecords ∧
      ∀ function, Symbol.coverageRecord function ∈ (performAll tasks s).module.globalNames ↔
        Symbol.coverageRecord function ∈ s.module.globalNames ∨
        ∃ earlier compress config, earlier ++ [.run compress config] <+: tasks ∧
          config.coverageEnabled ∧
          (performAll (earlier ++ [.run compress config]) s).module.Described function := by
  induction tasks using List.reverseRecOn with
  | nil =>
      refine ⟨hs, fun function => (or_iff_left ?_).symm⟩
      rintro ⟨earlier, compress, config, hprefix, -⟩
      simp at hprefix
  | append_singleton tasks task ih =>
      obtain ⟨hpinned, hbefore⟩ := ih fun other hother => htasks other (by simp [hother])
      have hlast : performAll (tasks ++ [task]) s = task.perform (performAll tasks s) :=
        performAll_append tasks [task] s
      obtain ⟨hpinned', hafter⟩ := Task.coverageRecord_mem_iff hpinned (htasks task (by simp))
      refine ⟨hlast ▸ hpinned', fun function => ?_⟩
      rw [hlast, hafter, hbefore, or_assoc]
      refine or_congr_right ⟨?_, ?_⟩
      · rintro (⟨earlier, compress, config, hprefix, hemits⟩ |
          ⟨⟨compress, config, rfl, hcoverage⟩, hdescribed⟩)
        · exact ⟨earlier, compress, config, hprefix.trans (List.prefix_append ..), hemits⟩
        · exact ⟨tasks, compress, config, List.prefix_refl _, hcoverage, hlast ▸ hdescribed⟩
      · rintro ⟨earlier, compress, config, hprefix, hcoverage, hdescribed⟩
        rcases List.prefix_concat_iff.1 hprefix with heq | hprefix
        · obtain ⟨rfl, htask⟩ := List.append_inj' heq rfl
          obtain rfl := List.singleton_inj.1 htask
          exact .inr ⟨⟨compress, config, rfl, hcoverage⟩, hlast ▸ hdescribed⟩
        · exact .inl ⟨earlier, compress, config, hprefix, hcoverage, hdescribed⟩

/-! ### Runs with coverage -/

namespace Action

/-- **The records after a run with coverage.** A module that has no records at first is worked on by
tasks that spare records, and then run with coverage. The records are then those of the functions
that have a name and a counter array, and those of functions that had both a counter array and a
record at the end of an earlier run with coverage. Each run may compress in a way of its own. -/
theorem coverageRecord_mem_iff_of_run {compress : Bytes → Bytes} {tasks : List Task}
    {passes : String} {options : CoverageOptions} {report : RunReport} {s' : Session}
    (hfresh : ∀ function, Symbol.coverageRecord function ∉ s.module.globalNames)
    (htasks : ∀ task ∈ tasks, task.SparesRecords)
    (hrun : runWith compress .full ⟨passes, some options⟩ (performAll tasks s) = .ok report s')
    (function : String) :
    Symbol.coverageRecord function ∈ s'.module.globalNames ↔
      Symbol.counters function ∈ s'.module.globalNames ∧ function ≠ "" ∨
      ∃ earlier compress config, earlier ++ [.run compress config] <+: tasks ∧
        config.coverageEnabled ∧
        (performAll (earlier ++ [.run compress config]) s).module.Described function := by
  obtain ⟨hpinned, hbefore⟩ :=
    coverageRecord_mem_performAll_iff (Module.pinsRecords_of_fresh hfresh) htasks
  obtain ⟨pipeline, m, summary, -, heffect, -, -, hmade⟩ := made_of_runWith hrun
  have hpassed : Module.KeepsRecords (performAll tasks s).module m :=
    Module.keeps_of_steps (fun m m' hstep hm => hm.step hstep) (steps_of_effectOf heffect)
      ⟨hpinned, fun _ => Iff.rfl⟩
  rw [hmade.coverageRecord_mem_iff, hmade.counters_mem_iff, hpassed.same, hbefore,
    or_iff_right (hfresh function), Module.mem_counted_iff, or_comm]

/-- A function that nothing needs is given an increment, and run with coverage. -/
def recordedProgram (compressing : Bool) : List Task :=
  [.operation (.build (.addFunction "f" .internalLinkage)),
    .operation (.build (.instrument "f" 1)),
    .run Zlib.compress ⟨"no-op-module", some ⟨"a.c", true, compressing, .elf⟩⟩]

/-- A second run with coverage deletes the function with its counter array, but not its record. -/
theorem rerun_recordedProgram (compressing : Bool) : ∃ report s',
    runWith Zlib.compress .full ⟨"globaldce", some ⟨"a.c", true, compressing, .elf⟩⟩
      (performAll (recordedProgram compressing) (.start "m")) = .ok report s' ∧
    Symbol.coverageRecord "f" ∈ s'.module.globalNames ∧
    Symbol.counters "f" ∉ s'.module.globalNames := by
  let options : CoverageOptions := ⟨"a.c", true, compressing, .elf⟩
  let steps : List BuildStep := [.addFunction "f" .internalLinkage, .instrument "f" 1]
  have hfits : options.Fits Zlib.compress := CoverageOptions.fits_short true compressing .elf
  have hfirst : Pipeline.parse "no-op-module" = .ok ⟨[.noOp]⟩ := by cbv
  have hsecond : Pipeline.parse "globaldce" = .ok ⟨[.removeDeadSymbols]⟩ := by cbv
  have hsteps : ∀ step ∈ steps, step.Unreserved := by decide
  obtain ⟨_, hfollows⟩ := follows_build (s := .start "m") (.empty "m") hsteps
  obtain ⟨report₁, s₁, m₁, _, _, hrun₁, heffect₁, hmade₁, hfollows₁⟩ :=
    exists_runWith_coverage hfollows hfirst hfits
  obtain ⟨report₂, s₂, m₂, _, _, hrun₂, heffect₂, hmade₂, -⟩ :=
    exists_runWith_coverage hfollows₁ hsecond hfits
  have hs₁ : performAll (recordedProgram compressing) (.start "m") = s₁ :=
    Stage.perform_run_of_ok hrun₁
  have hnames : m₂.globalNames
      = ["__llvm_prf_nm", "__llvm_coverage_mapping", "__covrec_f"] := by
    let built := effectOf [.lowerIncrements ⟨true⟩, .noOp] (build steps (.start "m")).module
    have hm₁ : m₁ = built.toOption.getD (.empty "m") := by
      rw [show built = .ok m₁ from heffect₁]
      rfl
    have hall : (effectOf [.lowerIncrements ⟨true⟩, .removeDeadSymbols] s₁.module).map
        (·.globalNames)
          = .ok ["__llvm_prf_nm", "__llvm_coverage_mapping", "__covrec_f"] := by
      rw [hmade₁.module, hmade₁.variables_eq, hm₁]
      cases compressing <;> decide +kernel
    rw [show effectOf [.lowerIncrements ⟨true⟩, .removeDeadSymbols] s₁.module = .ok m₂ from
      heffect₂] at hall
    exact Except.ok.inj hall
  refine ⟨report₂, s₂, hs₁ ▸ hrun₂, hmade₂.coverageRecord_mem_iff.2 (.inl ?_),
    mt hmade₂.counters_mem_iff.1 ?_⟩
  · rw [hnames]
    decide
  · rw [hnames]
    decide

/-- The records after the second run over a module of which a function has been deleted, be the
filenames tables compressed or not. -/
theorem coverageRecord_mem_iff_recordedProgram :
    (∀ function, Symbol.coverageRecord function ∉ (Session.start "m").module.globalNames) ∧
    ∀ compressing, (∀ task ∈ recordedProgram compressing, task.SparesRecords) ∧ ∃ report s',
      runWith Zlib.compress .full ⟨"globaldce", some ⟨"a.c", true, compressing, .elf⟩⟩
        (performAll (recordedProgram compressing) (.start "m")) = .ok report s' ∧
      ∀ function, Symbol.coverageRecord function ∈ s'.module.globalNames ↔
        Symbol.counters function ∈ s'.module.globalNames ∧ function ≠ "" ∨
        ∃ earlier compress config,
          earlier ++ [.run compress config] <+: recordedProgram compressing ∧
          config.coverageEnabled ∧
          (performAll (earlier ++ [.run compress config]) (.start "m")).module.Described
            function := by
  have hfresh : ∀ function,
      Symbol.coverageRecord function ∉ (Session.start "m").module.globalNames :=
    fun _ => List.not_mem_nil
  refine ⟨hfresh, fun compressing => ?_⟩
  obtain ⟨report, s', hrun, -⟩ := rerun_recordedProgram compressing
  have htasks : ∀ task ∈ recordedProgram compressing, task.SparesRecords :=
    List.forall_mem_cons.2 ⟨trivial, List.forall_mem_cons.2 ⟨trivial,
      List.forall_mem_singleton.2 trivial⟩⟩
  exact ⟨htasks, report, s', hrun, coverageRecord_mem_iff_of_run hfresh htasks hrun⟩

/-- So the records after a run with coverage are not just those of the counter arrays that are
there, although the module had none at first and nothing was done to it but instrumentation and runs
with coverage. -/
theorem not_coverageRecord_mem_iff_counters : ∃ report s',
    (∀ function, Symbol.coverageRecord function ∉ (Session.start "m").module.globalNames) ∧
    runWith Zlib.compress .full ⟨"globaldce", some ⟨"a.c", true, false, .elf⟩⟩
      (performAll (recordedProgram false) (.start "m")) = .ok report s' ∧
    ¬∀ function, Symbol.coverageRecord function ∈ s'.module.globalNames ↔
      Symbol.counters function ∈ s'.module.globalNames := by
  obtain ⟨report, s', hrun, hrecord, hcounters⟩ := rerun_recordedProgram false
  exact ⟨report, s', fun _ => List.not_mem_nil, hrun, fun h => hcounters ((h "f").1 hrecord)⟩

end Action

end SourceCoverage
