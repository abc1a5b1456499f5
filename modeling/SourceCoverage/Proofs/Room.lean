import SourceCoverage.Proofs.Lifetime

/-!
# Room for Coverage Data

An emission succeeds exactly if the filenames table is short enough for its header and the module
*admits* coverage data: no function has the name of any variable that the emission defines, and no
variable that of the entry point of the runtime. Nothing else about the module matters: increments
need not be in their own functions, and counter arrays need not be what lowering makes.

Which records are emitted depends on the counter arrays that there are. Where no function has the
name of any record, the module has *room* for coverage data of any functions.

## Main results

* `Action.runs_emitWith_iff`: when an emission succeeds.
* `Action.exists_runWith_of_room`: a run with coverage succeeds whose passes lead to a module with
  room.
-/

namespace SourceCoverage

/-! ### When actions in a row succeed -/

namespace Action

variable {ε α β : Type} {action : Action ε α} {next : α → Action ε β} {s : Session}

/-- Whether an action succeeds in a session. -/
def Runs (action : Action ε α) (s : Session) : Prop := ∃ a s', action s = .ok a s'

/-- An action after another: what the second needs may be told before the first, if this leaves it
so. -/
theorem runs_bind_iff {needed : Prop}
    (h : ∀ a s', action s = .ok a s' → ((next a).Runs s' ↔ needed)) :
    (action >>= next).Runs s ↔ action.Runs s ∧ needed := by
  constructor
  · rintro ⟨b, s', hrun⟩
    obtain ⟨a, between, hfirst, hsecond⟩ := bind_eq_ok_iff.1 hrun
    exact ⟨⟨a, between, hfirst⟩, (h a between hfirst).1 ⟨b, s', hsecond⟩⟩
  · rintro ⟨⟨a, between, hfirst⟩, hneeded⟩
    obtain ⟨b, s', hsecond⟩ := (h a between hfirst).2 hneeded
    exact ⟨b, s', bind_eq_ok_iff.2 ⟨a, between, hfirst, hsecond⟩⟩

/-- After an action, something that cannot fail. -/
theorem runs_bind_iff_of_forall (h : ∀ a s, (next a).Runs s) :
    (action >>= next).Runs s ↔ action.Runs s := by
  rw [runs_bind_iff fun a s' _ => iff_true_intro (h a s'), and_true]

/-- An answer is always given. -/
theorem runs_pure (a : α) (s : Session) : (pure a : Action ε α).Runs s := ⟨a, s, rfl⟩

/-- A report can always be made. -/
theorem runs_report_bind {event : Event} {next : Unit → Action ε β} :
    (report event >>= next).Runs s ↔ (next ()).Runs (s.record event) := Iff.rfl

/-- A look at the module cannot fail. -/
theorem runs_getModule_bind {next : Module → Action ε β} :
    (getModule >>= next).Runs s ↔ (next s.module).Runs s := Iff.rfl

/-- A variable can be defined unless a function has its name or its value refers to something that
is not there. -/
theorem runs_defineVariable_iff {v : Variable} : (defineVariable v).Runs s ↔
    v.name ∉ s.module.functionNames ∧ ∀ name ∈ v.value.references, s.module.hasSymbol name := by
  constructor
  · rintro ⟨_, s', hrun⟩
    rw [defineVariable] at hrun
    cases hdefine : s.module.defineVariable v with
    | error e => simp [hdefine] at hrun
    | ok m =>
        obtain ⟨hname, hreferences, -⟩ := Module.defineVariable_eq_ok_iff.1 hdefine
        exact ⟨hname, hreferences⟩
  · rintro ⟨hname, hreferences⟩
    exact ⟨_, _, defineVariable_spec hname hreferences⟩

end Action

/-! ### When an emission succeeds -/

/-- Whether a module admits coverage data: no function has the name of any of it, and no global
variable that of the entry point of the runtime. -/
structure Module.AdmitsCoverage (m : Module) : Prop where
  mapping : Symbol.coverageMapping ∉ m.functionNames
  record : ∀ function ∈ m.counted, Symbol.coverageRecord function ∉ m.functionNames
  user : Symbol.profileRuntimeUser ∉ m.functionNames
  runtime : Symbol.profileRuntime ∉ m.globalNames

namespace Action

variable {s : Session} {options : CoverageOptions}

/-- The header can be emitted if it can tell the length of the table, and no function has its
name. -/
theorem runs_emitHeader_iff {filenames : EncodedFilenames} : (emitHeader options filenames).Runs s ↔
    filenames.blob.length < UInt32.size ∧ Symbol.coverageMapping ∉ s.module.functionNames := by
  rw [emitHeader, filenamesLength]
  by_cases hfits : filenames.blob.length < UInt32.size
  · rw [if_pos hfits, and_iff_right hfits]
    refine (runs_bind_iff_of_forall fun _ s => ⟨_, _, rfl⟩).trans ?_
    refine runs_defineVariable_iff.trans (and_iff_left ?_)
    simp [headerVariable, TableHeader.toConstant, Constant.references, Constant.referencesOfAll]
  · rw [if_neg hfits]
    refine iff_of_false ?_ fun h => hfits h.1
    rintro ⟨_, _, hrun⟩
    cases hrun

/-- Emitting the header leaves the functions alone, and defines no counter array and no entry point
of the runtime. -/
theorem names_of_emitHeader {s' : Session} {filenames : EncodedFilenames} {header : TableHeader}
    (h : emitHeader options filenames s = .ok header s') :
    s'.module.functionNames = s.module.functionNames ∧ s'.module.counted = s.module.counted ∧
      (Symbol.profileRuntime ∈ s'.module.globalNames ↔
        Symbol.profileRuntime ∈ s.module.globalNames) := by
  have hne : Symbol.profileRuntime ≠ Symbol.coverageMapping := by decide
  obtain ⟨-, -, hmodule⟩ := made_of_emitHeader h
  refine ⟨by rw [hmodule, Module.functionNames_putVariable],
    by rw [hmodule, Module.counted_putVariable_headerVariable], ?_⟩
  rw [hmodule, Module.mem_globalNames_putVariable]
  exact or_iff_left hne

/-- The record of a function can be emitted if no function has its name. -/
theorem runs_emitRecord_iff {hash : UInt64} {function : String} :
    (emitRecord options hash function).Runs s ↔
      Symbol.coverageRecord function ∉ s.module.functionNames := by
  obtain ⟨log, hencode⟩ := encodeMapping_spec s
  rw [Runs, emitRecord, bind_of_ok hencode, ofMapping_placeholderBytes]
  refine (runs_bind_iff_of_forall fun _ s => ⟨_, _, rfl⟩).trans ?_
  exact runs_defineVariable_iff.trans (and_iff_left (List.forall_mem_nil _))

/-- The records for a list of global variables can be emitted if no function has the name of any of
them. -/
theorem runs_emitRecords_iff {hash : UInt64} {globals : List String} :
    (emitRecords options hash globals).Runs s ↔
      ∀ function ∈ globals.filterMap Symbol.countersOwner?,
        Symbol.coverageRecord function ∉ s.module.functionNames := by
  induction globals generalizing s with
  | nil => exact iff_of_true (runs_pure _ _) nofun
  | cons global globals ih =>
      rw [emitRecords]
      cases howner : Symbol.countersOwner? global with
      | none =>
          rw [List.filterMap_cons_none howner]
          refine runs_report_bind.trans ?_
          exact (runs_bind_iff_of_forall fun _ => runs_pure _).trans ih
      | some function =>
          rw [List.filterMap_cons_some howner, List.forall_mem_cons, ← runs_emitRecord_iff]
          refine runs_bind_iff fun r s₁ hrecord => ?_
          have hnames : s₁.module.functionNames = s.module.functionNames := by
            rw [(made_of_emitRecord hrecord).2, Module.functionNames_putVariable]
          rw [← hnames]
          exact (runs_bind_iff_of_forall fun _ => runs_pure _).trans ih

/-- Emitting records leaves the functions alone, and defines no symbol of another kind. -/
theorem names_of_emitRecords {s' : Session} {hash : UInt64} {globals : List String}
    {answer : List EmittedRecord × List String}
    (h : emitRecords options hash globals s = .ok answer s') :
    s'.module.functionNames = s.module.functionNames ∧
      ∀ symbol : OwnSymbol, (∀ function, symbol ≠ .coverageRecord function) →
        (symbol.name ∈ s'.module.globalNames ↔ symbol.name ∈ s.module.globalNames) := by
  obtain ⟨records, skipped⟩ := answer
  obtain ⟨hmade, -, hmodule⟩ := made_of_emitRecords h
  refine ⟨by rw [hmodule, Module.functionNames_putAll], fun symbol hother => ?_⟩
  rw [hmodule, Module.mem_globalNames_putAll]
  refine or_iff_left ?_
  rintro ⟨v, hv, hname⟩
  obtain ⟨r, hr, rfl⟩ := List.mem_map.1 hv
  rw [hmade] at hr
  obtain ⟨function, -, rfl⟩ := List.mem_map.1 hr
  exact hother function (OwnSymbol.name_inj (b := .coverageRecord function).1 hname.symm)

/-- The entry point of the runtime can be declared if no global variable has its name. -/
theorem attempt_profileRuntime_eq_ok_iff {u : Unit} {s' : Session} :
    attempt (·.declareFunction Symbol.profileRuntime) s = .ok u s' ↔
      Symbol.profileRuntime ∉ s.module.globalNames ∧
        s' = { s with module := s.module.withRuntime } := by
  rw [attempt]
  cases hdeclare : s.module.declareFunction Symbol.profileRuntime with
  | error e =>
      refine iff_of_false (fun h => by cases h) fun h => ?_
      cases hdeclare.symm.trans (Module.declareFunction_eq_ok_iff.2 ⟨h.1, rfl⟩)
  | ok m =>
      obtain ⟨hname, rfl⟩ := Module.declareFunction_eq_ok_iff.1 hdeclare
      rw [and_iff_right hname, eq_comm (a := s')]
      exact ⟨fun h => (EStateM.Result.ok.inj h).2, fun h => congrArg (EStateM.Result.ok ()) h⟩

/-- The runtime can be referred to if no global variable has the name of its entry point, and no
function that of the reference. -/
theorem runs_referToRuntime_iff : referToRuntime.Runs s ↔
    Symbol.profileRuntime ∉ s.module.globalNames ∧
      Symbol.profileRuntimeUser ∉ s.module.functionNames := by
  have hattempt : (attempt (·.declareFunction Symbol.profileRuntime)).Runs s ↔
      Symbol.profileRuntime ∉ s.module.globalNames :=
    ⟨fun ⟨_, _, hrun⟩ => (attempt_profileRuntime_eq_ok_iff.1 hrun).1,
      fun hname => ⟨(), _, attempt_profileRuntime_eq_ok_iff.2 ⟨hname, rfl⟩⟩⟩
  have hne : Symbol.profileRuntimeUser ≠ Symbol.profileRuntime := by decide
  rw [referToRuntime, ← hattempt]
  refine runs_bind_iff fun _ s₁ hdeclare => ?_
  obtain ⟨-, rfl⟩ := attempt_profileRuntime_eq_ok_iff.1 hdeclare
  rw [runs_defineVariable_iff, Module.mem_functionNames_withRuntime]
  refine (and_iff_left fun name hname => ?_).trans (not_congr (or_iff_left hne))
  obtain rfl := List.mem_singleton.1 hname
  exact Module.hasSymbol_iff.2 (.inr (Module.mem_functionNames_withRuntime.2 (.inr rfl)))

/-- **When an emission succeeds**: if the header can tell the length of the filenames table, and
the module admits coverage data. -/
theorem runs_emitWith_iff {compress : Bytes → Bytes} : (emitWith compress options).Runs s ↔
    options.Fits compress ∧ s.module.AdmitsCoverage := by
  let encoded := options.filenames compress
  obtain ⟨log, hencode⟩ := encodeFilenames_spec (ε := CoverageError) compress
    (.single options.sourceFile) options.compressFilenames s
  let recorded := ∀ function ∈ s.module.counted,
    Symbol.coverageRecord function ∉ s.module.functionNames
  let referred := Symbol.profileRuntime ∉ s.module.globalNames ∧
    Symbol.profileRuntimeUser ∉ s.module.functionNames
  have hall : (emitWith compress options).Runs s ↔
      (options.Fits compress ∧ Symbol.coverageMapping ∉ s.module.functionNames) ∧
        recorded ∧ referred := by
    rw [Runs, emitWith, bind_of_ok hencode]
    refine (runs_bind_iff fun header s₁ hheader => ?_).trans
      (and_congr_left fun _ => runs_emitHeader_iff)
    obtain ⟨hnames₁, hcounted₁, hruntime₁⟩ := names_of_emitHeader hheader
    have hrecord : (emitRecords options encoded.hash s₁.module.globalNames).Runs s₁ ↔ recorded := by
      rw [runs_emitRecords_iff, ← Module.counted, hcounted₁, hnames₁]
    rw [← hrecord]
    refine runs_getModule_bind.trans (runs_bind_iff fun records s₂ hrecords => ?_)
    obtain ⟨hnames₂, hglobals₂⟩ := names_of_emitRecords hrecords
    have hruntime : Symbol.profileRuntime ∈ s₂.module.globalNames ↔
        Symbol.profileRuntime ∈ s.module.globalNames :=
      (hglobals₂ .profileRuntime fun _ h => by cases h).trans hruntime₁
    refine (runs_bind_iff_of_forall fun _ _ => ⟨_, _, rfl⟩).trans ?_
    rw [runs_referToRuntime_iff, hruntime, hnames₂, hnames₁]
  rw [hall]
  constructor
  · rintro ⟨⟨hfits, hmapping⟩, hrecord, hruntime, huser⟩
    exact ⟨hfits, hmapping, hrecord, huser, hruntime⟩
  · rintro ⟨hfits, hmapping, hrecord, huser, hruntime⟩
    exact ⟨⟨hfits, hmapping⟩, hrecord, hruntime, huser⟩

end Action

/-- Whether there is room for coverage data in a module: no function has the name of any of it, and
no global variable that of the entry point of the runtime. -/
structure Module.HasRoom (m : Module) : Prop where
  mapping : Symbol.coverageMapping ∉ m.functionNames
  record : ∀ function, Symbol.coverageRecord function ∉ m.functionNames
  user : Symbol.profileRuntimeUser ∉ m.functionNames
  runtime : Symbol.profileRuntime ∉ m.globalNames

/-- A module with room admits coverage data, whichever counter arrays it has. -/
theorem Module.HasRoom.admits {m : Module} (h : m.HasRoom) : m.AdmitsCoverage :=
  ⟨h.mapping, fun function _ => h.record function, h.user, h.runtime⟩

/-- **A run with coverage succeeds** if its text can be read and its passes lead to a module with
room, and the filenames table is short enough. -/
theorem Action.exists_runWith_of_room {options : CoverageOptions} {s : Session} {m : Module}
    {passes : String} {pipeline : Pipeline} {compress : Bytes → Bytes}
    (hparse : Pipeline.parse passes = .ok pipeline) (hfits : options.Fits compress)
    (heffect : effectOf (.lowerIncrements ⟨options.atomicCounters⟩ :: pipeline.passes) s.module
      = .ok m) (hroom : m.HasRoom) :
    ∃ report s' summary, runWith compress .full ⟨passes, some options⟩ s = .ok report s' ∧
      EmissionSummary.Made options (options.filenames compress) m summary s'.module := by
  obtain ⟨s₁, rfl, hok, -⟩ :=
    runWith_coverage_spec .full rfl (pipeline_coverage_eq_ok_iff.2 ⟨pipeline, hparse, rfl⟩) heffect
  obtain ⟨summary, s₂, hemit⟩ : (emitWith compress options).Runs s₁ :=
    runs_emitWith_iff.2 ⟨hfits, hroom.admits⟩
  obtain ⟨report, s', hrun, -, hmodule⟩ := hok summary s₂ hemit
  exact ⟨report, s', summary, hrun, hmodule ▸ made_of_emitWith hemit⟩

end SourceCoverage
