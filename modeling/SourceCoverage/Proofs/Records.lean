import SourceCoverage.Proofs.Building
import SourceCoverage.Proofs.Run

/-!
# Records Describe the Survivors

A record joins two things that are computed at different times from different data. The increments
carry the function hash, computed from the name of the function when it is instrumented; the record
is made from the name of the counter array that is left after optimisation. They agree, whatever
the program calls and the passes delete: a counter array is there exactly as long as its function,
and tells its name.

## Main results

* `follows_build_of_instrumentsEach`: what is pending after a program has been built.
* `Module.Follows.mem_counted_iff`: counter arrays belong to functions with lowered increments.
* `Action.run_records`: the records of a run.
* `Action.not_runs_singleProgram`: environments and options with which there are none.
-/

namespace SourceCoverage

/-! ### Instrumented functions -/

/-- Whether every instrumentation among the steps has a positive count, and succeeds when its turn
comes. -/
def InstrumentsEach : List BuildStep → Session → Prop
  | [], _ => True
  | step :: steps, s =>
    (∀ function count, step = .instrument function count → count ≠ 0 ∧ step.Succeeds s) ∧
      InstrumentsEach steps (step.perform s)

/-- Whether a function is instrumented by one of the steps. -/
def Instruments (steps : List BuildStep) (function : String) : Prop :=
  ∃ count, BuildStep.instrument function count ∈ steps

/-- The increments in the bodies of the functions of a name. -/
def Module.incrementsOf (m : Module) (name : String) : List Increment :=
  (m.functions.filter (·.name = name)).flatMap fun f => f.instructions.filterMap (·.increment?)

/-- A step instruments the function that it says. -/
theorem BuildStep.counts_ne_nil_iff {s : Session} {history : History} {step : BuildStep}
    (h : s.module.Follows history)
    (heach : ∀ function count, step = .instrument function count → count ≠ 0 ∧ step.Succeeds s)
    {name : String} : step.counts s.module name ≠ [] ↔ ∃ count, step = .instrument name count := by
  constructor
  · intro hne
    obtain ⟨count, hcount⟩ := List.exists_mem_of_ne_nil _ hne
    exact ⟨count, eq_of_mem_counts hcount⟩
  · rintro ⟨count, rfl⟩
    obtain ⟨hcount, hsucceeds⟩ := heach name count rfl
    rw [counts, if_pos ⟨rfl, (succeeds_instrument_iff h).1 hsucceeds, hcount⟩]
    exact List.cons_ne_nil _ _

/-- **What is pending after a program has been built**: the instrumentations of the functions that
were instrumented. Nothing is lowered. -/
theorem follows_build_of_instrumentsEach {s : Session} {history : History}
    (h : s.module.Follows history) {steps : List BuildStep}
    (hsteps : ∀ step ∈ steps, step.Unreserved) (heach : InstrumentsEach steps s) :
    ∃ history', (build steps s).module.Follows history' ∧ ∀ name,
      (history' name).lowered = (history name).lowered ∧
      ((history' name).pending ≠ [] ↔ (history name).pending ≠ [] ∨ Instruments steps name) := by
  induction steps generalizing s history with
  | nil =>
      refine ⟨history, h, fun name => ⟨rfl, .inl, ?_⟩⟩
      rintro (hpending | ⟨count, hmem⟩)
      · exact hpending
      · cases hmem
  | cons step steps ih =>
      obtain ⟨hstep, hrest⟩ := List.forall_mem_cons.1 hsteps
      obtain ⟨heach, heachrest⟩ := heach
      obtain ⟨history', hfollows, hevery⟩ := ih (BuildStep.follows h hstep) hrest heachrest
      refine ⟨history', hfollows, fun name => ?_⟩
      obtain ⟨hlowered, hpending⟩ := hevery name
      refine ⟨hlowered.trans BuildStep.lowered_recordIn, hpending.trans ?_⟩
      have hcounts : step.counts s.module name ≠ [] ↔ ∃ count, step = .instrument name count :=
        BuildStep.counts_ne_nil_iff h heach
      rw [BuildStep.pending_recordIn, ne_eq, List.append_eq_nil_iff,
        Classical.not_and_iff_not_or_not]
      constructor
      · rintro ((hcount | hbefore) | ⟨count, hmem⟩)
        · obtain ⟨count, rfl⟩ := hcounts.1 hcount
          exact .inr ⟨count, .head _⟩
        · exact .inl hbefore
        · exact .inr ⟨count, .tail _ hmem⟩
      · rintro (hbefore | ⟨count, hmem⟩)
        · exact .inl (.inr hbefore)
        · rcases List.mem_cons.1 hmem with rfl | hmem
          · exact .inl (.inl (hcounts.2 ⟨count, rfl⟩))
          · exact .inr ⟨count, hmem⟩

/-! ### Counter arrays and increments -/

namespace Module.Follows

variable {m : Module} {history : History}

/-- **A counter array is there exactly if its function has lowered increments.** -/
theorem counters_mem_globalNames_iff (h : m.Follows history) {function : String} :
    Symbol.counters function ∈ m.globalNames ↔ (history function).lowered ≠ [] := by
  constructor
  · intro hmem
    obtain ⟨g, hg, hname⟩ := List.mem_map.1 hmem
    exact (h.describes hg (.counters function) hname).lowered_ne_nil rfl
  · exact h.counters_mem_globalNames

/-- The increments of a function are those of its pending instrumentations. -/
theorem mem_incrementsOf_iff (h : m.Follows history) {function : String} {i : Increment} :
    i ∈ m.incrementsOf function ↔ ∃ count ∈ (history function).pending, ∃ index < count,
      Instrumentation.increment ⟨⟨function⟩, count⟩ index = i := by
  rw [incrementsOf, List.mem_flatMap]
  constructor
  · rintro ⟨f, hmem, hi⟩
    obtain ⟨hf, hname⟩ := List.mem_filter.1 hmem
    obtain rfl := of_decide_eq_true hname
    rw [h.filterMap_increment? hf] at hi
    obtain ⟨count, hcount, hi⟩ := List.mem_flatMap.1 hi
    exact ⟨count, hcount, Shape.mem_map_range_iff.1 hi⟩
  · rintro ⟨count, hcount, hi⟩
    have hne : history function ≠ .empty := Shape.ne_empty_iff.2 (.inl (List.ne_nil_of_mem hcount))
    obtain ⟨f, hf, rfl, -⟩ := h.exists_definition hne
    refine ⟨f, List.mem_filter.2 ⟨hf, decide_eq_true rfl⟩, ?_⟩
    rw [h.filterMap_increment? hf]
    exact List.mem_flatMap.2 ⟨count, hcount, Shape.mem_map_range_iff.2 hi⟩

/-- A function with pending instrumentations has increments. -/
theorem incrementsOf_ne_nil (h : m.Follows history) {function : String}
    (hpending : (history function).pending ≠ []) : m.incrementsOf function ≠ [] := by
  obtain ⟨count, hcount⟩ := List.exists_mem_of_ne_nil _ hpending
  have hpositive := UInt32.pos_iff_ne_zero.2 ((h.valid function).pending count hcount)
  exact List.ne_nil_of_mem (h.mem_incrementsOf_iff.2 ⟨count, hcount, 0, hpositive, rfl⟩)

end Module.Follows

/-! ### The records of a run -/

/-- What the records of an emission are to be, for a program that was built by steps: one for each
instrumented function that is left, and none besides; under the name hash of the function and the
hash of the filenames table; and with the function hash that the increments of the function had,
of which there were some. -/
structure DescribesSurvivors (steps : List BuildStep) (before after : Module)
    (summary : EmissionSummary) : Prop where
  nodup : (summary.records.map (·.function)).Nodup
  survivors : ∀ function, function ∈ summary.records.map (·.function) ↔
    Instruments steps function ∧ function ∈ after.functionNames
  functionHash : ∀ r ∈ summary.records, before.incrementsOf r.function ≠ [] ∧
    ∀ i ∈ before.incrementsOf r.function, i.functionHash = r.record.functionHash
  nameHash : ∀ r ∈ summary.records, r.record.nameHash = SourceCoverage.nameHash (utf8 r.function)
  filenamesHash : ∀ r ∈ summary.records, r.record.filenamesHash = summary.filenamesHash

namespace Action

variable {steps : List BuildStep} {passes : String} {pipeline : Pipeline}

/-- The counter arrays that the passes of a run leave are those of the instrumented functions that
are still defined. -/
theorem counters_mem_globalNames_iff {m : Module} {history history' : History}
    (hpending : ∀ function, (history function).pending ≠ [] ↔ Instruments steps function)
    (hfollows' : m.Follows history')
    (hlowered : ∀ function, m.Defines function →
      ((history' function).lowered ≠ [] ↔ (history function).pending ≠ [])) (function : String) :
    Symbol.counters function ∈ m.globalNames ↔ m.Defines function ∧ Instruments steps function := by
  rw [hfollows'.counters_mem_globalNames_iff, ← hpending]
  by_cases hdefines : m.Defines function
  · exact (hlowered function hdefines).trans (and_iff_right hdefines).symm
  · rw [hfollows'.undefined function hdefines]
    exact iff_of_false (fun hne => hne rfl) fun h => hdefines h.1

/-- An instrumented function whose name is left after the passes of a run is still defined. -/
theorem defines_of_instruments {before m : Module} {history : History} {passes : List Pass}
    {function : String} (hsteps : ∀ step ∈ steps, step.Unreserved)
    (hfollows : before.Follows history)
    (hpending : ∀ function, (history function).pending ≠ [] ↔ Instruments steps function)
    (heffect : effectOf passes before = .ok m) (hinstruments : Instruments steps function)
    (hleft : function ∈ m.withRuntime.functionNames) : m.Defines function := by
  obtain ⟨count, hstep⟩ := hinstruments
  have hunreserved : Symbol.Unreserved function := hsteps _ hstep function (.head _)
  have hleft := (Module.mem_functionNames_withRuntime.1 hleft).resolve_right
    (OwnSymbol.ne_name_of_unreserved hunreserved .profileRuntime)
  have hne : history function ≠ .empty :=
    Shape.ne_empty_iff.2 (.inl ((hpending function).2 ⟨count, hstep⟩))
  obtain ⟨f, hf, hname, hbody⟩ := hfollows.exists_definition hne
  exact hfollows.unambiguous.defines_of_effectOf heffect ⟨f, hf, hname, by rw [hbody]; rfl⟩ hleft

/-- The records of the counter arrays that the passes of a run leave describe the survivors. -/
theorem describesSurvivors {compress : Bytes → Bytes} {options : CoverageOptions}
    {before m after : Module} {history history' : History} {summary : EmissionSummary}
    {passes : List Pass}
    (hsteps : ∀ step ∈ steps, step.Unreserved) (hnames : ∀ step ∈ steps, "" ∉ step.names)
    (hfollows : before.Follows history)
    (hpending : ∀ function, (history function).pending ≠ [] ↔ Instruments steps function)
    (heffect : effectOf passes before = .ok m) (hfollows' : m.Follows history')
    (hlowered : ∀ function, m.Defines function →
      ((history' function).lowered ≠ [] ↔ (history function).pending ≠ []))
    (hfunctions : after.functions = m.withRuntime.functions)
    (hrecords : summary.records = m.counted.map (options.emitted compress))
    (hhash : summary.filenamesHash = (options.filenames compress).hash) :
    DescribesSurvivors steps before after summary := by
  have hcounted := counters_mem_globalNames_iff hpending hfollows' hlowered
  have hmap : summary.records.map (·.function) = m.counted := by
    rw [hrecords, List.map_map]
    exact List.map_id _
  have hafter : after.functionNames = m.withRuntime.functionNames := by
    rw [Module.functionNames, hfunctions, Module.functionNames]
  have hemitted : ∀ r ∈ summary.records, Instruments steps r.function ∧
      r = options.emitted compress r.function := by
    intro r hr
    rw [hrecords] at hr
    obtain ⟨function, hmem, rfl⟩ := List.mem_map.1 hr
    exact ⟨((hcounted function).1 (Module.mem_counted_iff.1 hmem).1).2, rfl⟩
  refine ⟨?_, fun function => ?_, fun r hr => ?_, fun r hr => ?_, fun r hr => ?_⟩
  · rw [hmap]
    exact Module.nodup_counted hfollows'.globalNames
  · rw [hmap, Module.mem_counted_iff, hcounted, hafter]
    constructor
    · rintro ⟨⟨⟨f, hf, rfl, -⟩, hinstruments⟩, -⟩
      exact ⟨hinstruments,
        Module.mem_functionNames_withRuntime.2 (.inl (List.mem_map_of_mem hf))⟩
    · rintro ⟨hinstruments, hleft⟩
      have hdefines :=
        defines_of_instruments hsteps hfollows hpending heffect hinstruments hleft
      refine ⟨⟨hdefines, hinstruments⟩, ?_⟩
      rintro rfl
      obtain ⟨count, hstep⟩ := hinstruments
      exact hnames _ hstep (.head _)
  · obtain ⟨hinstruments, hr⟩ := hemitted r hr
    refine ⟨hfollows.incrementsOf_ne_nil ((hpending _).2 hinstruments), fun i hi => ?_⟩
    obtain ⟨count, -, index, -, rfl⟩ := hfollows.mem_incrementsOf_iff.1 hi
    rw [hr]
    rfl
  · rw [(hemitted r hr).2]
    rfl
  · rw [(hemitted r hr).2, hhash]
    rfl

/-- **Records describe the survivors.** A program is built with unreserved names that are not
empty, and each instrumentation has a positive count and succeeds. Where increments can be lowered,
the run with coverage succeeds if the filenames table is short enough, in whichever way it is
compressed, and is refused for that reason alone if not; and its records describe the functions that
are left. -/
theorem run_records (compress : Bytes → Bytes) (capabilities : Capabilities)
    (hlowers : capabilities.loweringPass) (name : String)
    (hsteps : ∀ step ∈ steps, step.Unreserved) (hnames : ∀ step ∈ steps, "" ∉ step.names)
    (heach : InstrumentsEach steps (.start name))
    (hparse : Pipeline.parse passes = .ok pipeline) (options : CoverageOptions) :
    (options.Fits compress → ∃ report s' summary,
      runWith compress capabilities ⟨passes, some options⟩ (build steps (.start name))
        = .ok report s' ∧
      report.emission = some summary ∧
      DescribesSurvivors steps (build steps (.start name)).module s'.module summary) ∧
    (¬options.Fits compress → ∃ length s',
      runWith compress capabilities ⟨passes, some options⟩ (build steps (.start name))
        = .error (.coverage (.mappingTooLarge Symbol.coverageMapping length)) s') := by
  obtain ⟨history, hfollows, hbuilt⟩ :=
    follows_build_of_instrumentsEach (s := .start name) (.empty name) hsteps heach
  have hpending : ∀ function, (history function).pending ≠ [] ↔ Instruments steps function :=
    fun function => (hbuilt function).2.trans (or_iff_right fun hnot => hnot rfl)
  have hbuild : ((RunConfig.mk passes (some options)).within capabilities).pipeline = .ok _ :=
    pipeline_coverage_eq_ok_iff.2 ⟨pipeline, hparse, rfl⟩
  obtain ⟨m, history', heffect, hfollows', hshape, hok, -⟩ :=
    runWith_spec capabilities hlowers hfollows hbuild
  have hlowered : ∀ function, m.Defines function →
      ((history' function).lowered ≠ [] ↔ (history function).pending ≠ []) := by
    intro function hdefines
    have hnone : (history function).lowered = [] := (hbuilt function).1
    have hmap : (history' function).lowered
        = (history function).pending.map (·, (options.within capabilities).atomicCounters)
          ++ (history function).lowered := by
      rw [(hshape function hdefines).2]
      rfl
    rw [hmap, hnone, List.append_nil]
    exact not_congr List.map_eq_nil_iff
  refine ⟨fun hfits => ?_, fun hfits => ?_⟩
  · obtain ⟨report, s', hrun, hcompletes⟩ := hok fun other hother => Option.some.inj hother ▸ hfits
    obtain ⟨hfunctions, summary, hemission, hrecords, hhash⟩ := hcompletes.covered options rfl
    exact ⟨report, s', summary, hrun, hemission, describesSurvivors hsteps hnames hfollows hpending
      heffect hfollows' hlowered hfunctions hrecords hhash⟩
  · exact runWith_of_not_fits capabilities hlowers hfollows hparse hfits

/-- The records of a program of which one function is deleted, be the filenames table compressed or
not, and also where updates cannot be atomic. -/
theorem run_records_prunedProgram : (∀ step ∈ prunedProgram, step.Unreserved) ∧
    (∀ step ∈ prunedProgram, "" ∉ step.names) ∧ InstrumentsEach prunedProgram (.start "m") ∧
    Pipeline.parse "globaldce,verify" = .ok ⟨[.removeDeadSymbols, .verify]⟩ ∧
    ∀ atomicLowering compressing, ∃ report s' summary,
      runWith Zlib.compress ⟨true, atomicLowering, true⟩
        ⟨"globaldce,verify", some ⟨"a.c", true, compressing, .elf⟩⟩
        (build prunedProgram (.start "m")) = .ok report s' ∧
      report.emission = some summary ∧
      DescribesSurvivors prunedProgram (build prunedProgram (.start "m")).module s'.module
        summary := by
  have hsteps : ∀ step ∈ prunedProgram, step.Unreserved := by decide
  have hnames : ∀ step ∈ prunedProgram, "" ∉ step.names := by decide
  have heach : InstrumentsEach prunedProgram (.start "m") := by
    refine ⟨nofun, nofun, nofun, ?_, ?_, ?_, nofun, trivial⟩
    · rintro _ _ ⟨⟩
      exact ⟨by decide, _, rfl⟩
    · rintro _ _ ⟨⟩
      exact ⟨by decide, _, rfl⟩
    · rintro _ _ ⟨⟩
      exact ⟨by decide, _, rfl⟩
  have hparse : Pipeline.parse "globaldce,verify" = .ok ⟨[.removeDeadSymbols, .verify]⟩ := by cbv
  refine ⟨hsteps, hnames, heach, hparse, fun atomicLowering compressing => ?_⟩
  obtain ⟨hok, -⟩ := run_records Zlib.compress ⟨true, atomicLowering, true⟩ rfl "m" hsteps hnames
    heach hparse ⟨"a.c", true, compressing, .elf⟩
  exact hok (CoverageOptions.fits_short true compressing .elf)

/-- Where increments cannot be lowered, or with a path that has as many letters as the header can
count, the run of a program of one function does not succeed, whatever there is to compress by, so
that there are no records. -/
theorem not_runs_singleProgram : (∀ step ∈ singleProgram, step.Unreserved ∧ "" ∉ step.names) ∧
    InstrumentsEach singleProgram (.start "m") ∧
    Pipeline.parse "no-op-module" = .ok ⟨[.noOp]⟩ ∧
    ∀ compress : Bytes → Bytes,
      (¬∃ report s', runWith compress ⟨true, true, false⟩
        ⟨"no-op-module", some ⟨"a.c", true, false, .elf⟩⟩
        (build singleProgram (.start "m")) = .ok report s') ∧
      ¬∃ report s', runWith compress .full ⟨"no-op-module", some (.repeated UInt32.size)⟩
        (build singleProgram (.start "m")) = .ok report s' := by
  have hsteps : ∀ step ∈ singleProgram, step.Unreserved ∧ "" ∉ step.names := by decide
  have heach : InstrumentsEach singleProgram (.start "m") := by
    refine ⟨nofun, ?_, trivial⟩
    rintro _ _ ⟨⟩
    exact ⟨by decide, _, rfl⟩
  have hparse : Pipeline.parse "no-op-module" = .ok ⟨[.noOp]⟩ := by cbv
  obtain ⟨history, hfollows⟩ := follows_build (s := .start "m") (.empty "m") fun step hstep =>
    (hsteps step hstep).1
  refine ⟨hsteps, heach, hparse, fun compress => ?_⟩
  have hlong : ¬(CoverageOptions.repeated UInt32.size).Fits compress :=
    CoverageOptions.not_fits_repeated compress (Nat.le_refl UInt32.size)
  exact ⟨not_runs_of_not_loweringPass compress _ _ rfl _,
    not_runs_of_not_fits hfollows hparse hlong⟩

end Action

end SourceCoverage
