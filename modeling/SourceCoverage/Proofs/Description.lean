import SourceCoverage.Proofs.Collisions
import SourceCoverage.Proofs.Room

/-!
# What an Emission Describes

While an emission goes through the names of the global variables, it defines further ones, or puts
its own in the place of those it finds. What it goes through, though, is the list of names as it
stood once the header was defined. Every name in this list is either that of the counter array of a
function, and then there is a record for the function, or it is listed as skipped; both lists are in
the order of the names. Names may share a head or go on where another one ends, but the whole name
tells which function a counter array belongs to, if any.

That no function is recorded twice rests on the names of global variables being distinct, which
every public operation keeps, whether it succeeds or fails, and so does every pass. What an emission
does to the rest of the module is said through filters: the global variables that bear none of its
names are the same ones in the same order.

## Main results

* `Session.Reachable.distinct`: names are distinct wherever public operations lead.
* `Action.describes_of_emitWith`: what an emission describes, and what it leaves alone.
-/

namespace SourceCoverage

/-! ### Reachable sessions -/

/-- Whether public operations lead to a session from a new module. They may fail, and then count
with what they have done until then. -/
inductive Session.Reachable : Session → Prop
  | start (name : String) : Reachable (.start name)
  /-- An operation on the module, a variable that is given an owner, or a whole run. -/
  | task {s : Session} (task : Task) : Reachable s → Reachable (task.perform s)
  /-- An increment at any place of a function's body. -/
  | insert {s : Session} (cursor : BodyCursor) (intrinsic : String) (increment : Increment) :
      Reachable s → Reachable (endOf (Action.insert cursor intrinsic increment s))
  /-- Passes alone. -/
  | passes {s : Session} (pipeline : Pipeline) : Reachable s → Reachable (endOf (pipeline.run s))
  /-- An emission alone. -/
  | emission {s : Session} (compress : Bytes → Bytes) (options : CoverageOptions) :
      Reachable s → Reachable (endOf (Action.emitWith compress options s))

/-- Tasks lead from one reachable session to another. -/
theorem Session.Reachable.performAll {s : Session} (h : s.Reachable) (tasks : List Task) :
    (performAll tasks s).Reachable :=
  performAll_keeps (fun task _ _ hs => .task task hs) h

/-- What edits keep holds where an increment was to be inserted. -/
theorem Action.insert_keeps {P : Module → Prop} {s : Session} {cursor : BodyCursor}
    {intrinsic : String} {increment : Increment}
    (h : (Edit.insertIncrement cursor intrinsic increment).Keeps P) (hs : P s.module) :
    P (endOf (insert cursor intrinsic increment s)).module :=
  (preserves_insert h).endOf hs trivial

/-- **Names are distinct wherever public operations lead.** -/
theorem Session.Reachable.distinct {s : Session} (h : s.Reachable) : s.module.Distinct := by
  induction h with
  | start name => exact ⟨List.nodup_nil, List.nodup_nil⟩
  | task task _ ih => exact task.distinct_perform ih
  | insert cursor intrinsic increment _ ih =>
      exact Action.insert_keeps (fun _ _ hok hm => Edit.distinct hok hm) ih
  | passes pipeline _ ih =>
      exact Module.keeps_of_steps (fun _ _ hstep hm => hstep.distinct hm)
        (pipeline.run_steps _) ih
  | emission compress options _ ih =>
      exact Action.emitWith_keeps compress (fun _ _ _ _ hok hm => Edit.distinct hok hm) ih

/-! ### Counter arrays among names -/

/-- Whether a name is that of the counter array of a function that has a name. -/
def Symbol.IsCounters (name : String) : Prop :=
  ∃ function, function ≠ "" ∧ name = Symbol.counters function

/-- A name is that of a counter array exactly if a function is read off it. -/
theorem Symbol.isCounters_iff {name : String} :
    IsCounters name ↔ (countersOwner? name).isSome = true := by
  rw [Option.isSome_iff_exists]
  exact exists_congr fun function => by rw [countersOwner?_eq_some_iff, and_comm]

instance : DecidablePred Symbol.IsCounters := fun _ => decidable_of_iff _ Symbol.isCounters_iff.symm

/-- The counter arrays of the functions that are read off names are those among the names. -/
theorem Symbol.map_counters_filterMap (names : List String) :
    (names.filterMap countersOwner?).map counters = names.filter (IsCounters ·) := by
  induction names with
  | nil => rfl
  | cons name names ih =>
      cases howner : countersOwner? name with
      | none =>
          have hnot : ¬IsCounters name := fun h => by
            rw [isCounters_iff, howner] at h
            cases h
          rw [List.filterMap_cons_none howner, ih,
            List.filter_cons_of_neg (by simpa using hnot)]
      | some function =>
          have hname := (countersOwner?_eq_some_iff.1 howner).1
          have hcounters : IsCounters name := isCounters_iff.2 (by rw [howner]; rfl)
          rw [List.filterMap_cons_some howner, List.map_cons, ih, ← hname,
            List.filter_cons_of_pos (by simpa using hcounters)]

/-- The functions that are read off the names with the header are those that have a counter
array. -/
theorem Module.filterMap_namesWithHeader (m : Module) :
    m.namesWithHeader.filterMap Symbol.countersOwner? = m.counted := by
  have hnone : Symbol.countersOwner? Symbol.coverageMapping = none :=
    OwnSymbol.countersOwner?_eq_none .coverageMapping nofun
  rw [namesWithHeader]
  split
  · rfl
  · rw [List.filterMap_append, List.filterMap_cons_none hnone, List.filterMap_nil,
      List.append_nil, counted]

/-! ### What an emission describes -/

/-- Whether a name is that of a variable that an emission defines. -/
def EmissionSummary.defines (summary : EmissionSummary) (name : String) : Bool :=
  name == Symbol.coverageMapping || name == Symbol.profileRuntimeUser ||
    summary.records.any (·.global == name)

/-- What the summary of an emission tells of the module before and after it. -/
structure EmissionSummary.Describes (options : CoverageOptions) (m : Module)
    (summary : EmissionSummary) (m' : Module) : Prop where
  /-- There is a record for each counter array, in order, ... -/
  records : summary.records.map (Symbol.counters ·.function)
    = m.namesWithHeader.filter (Symbol.IsCounters ·)
  /-- and all other names are skipped, in order. -/
  skipped : summary.skipped = m.namesWithHeader.filter (¬Symbol.IsCounters ·)
  /-- The hash of the filenames table is that of its encoded form. -/
  filenamesHash : summary.filenamesHash = nameHash summary.filenames
  /-- A record tells of a function that has a name, and of the filenames table. -/
  record : ∀ r ∈ summary.records, r.function ≠ "" ∧
    r.global = Symbol.coverageRecord r.function ∧
    r.record.functionHash = functionHash (utf8 r.function) ∧
    r.record.nameHash = nameHash (utf8 r.function) ∧
    r.record.filenamesHash = summary.filenamesHash
  /-- No two records are for the same function. -/
  distinct : (summary.records.map (·.function)).Nodup
  /-- The variable of a record is in the module, ... -/
  defined : ∀ r ∈ summary.records, m'.definition? r.global = some
    { name := r.global
      value := .bytes r.record.toBytes
      isConstant := true
      linkage := .linkOnceOdr
      visibility := .hidden
      sectionName := some options.objectFormat.sections.functions
      alignment := some 8 }
  /-- and the only one of its name. -/
  globalNames : m'.globalNames.Nodup
  /-- Other global variables are what and where they were. -/
  others : m'.globals.filter (!summary.defines ·.name) = m.globals.filter (!summary.defines ·.name)
  /-- Functions are what they were, but that the entry point of the runtime is declared if there is
  no function of its name. -/
  functions : m'.functions =
    if m.hasFunction Symbol.profileRuntime then m.functions
    else m.functions ++ [⟨Symbol.profileRuntime, .externalLinkage, none, false⟩]
  /-- The module keeps its name. -/
  name : m'.name = m.name

namespace EmissionSummary.Made

variable {options : CoverageOptions} {encoded : EncodedFilenames} {m m' : Module}
  {summary : EmissionSummary}

/-- The functions of the records are those that have a counter array. -/
theorem map_function_records (h : summary.Made options encoded m m') :
    summary.records.map (·.function) = m.counted := by
  rw [h.records, List.map_map]
  exact List.map_id _

/-- The variables that an emission does not define are what and where they were. -/
theorem filter_not_defines (h : summary.Made options encoded m m') :
    m'.globals.filter (!summary.defines ·.name) = m.globals.filter (!summary.defines ·.name) := by
  refine h.filter_globals (q := fun name => !summary.defines name) ?_ ?_ ?_
  · simp [defines]
  · simp [defines]
  · intro function hfunction
    have hrecord : emittedFor encoded.hash function ∈ summary.records := by
      rw [h.records]
      exact List.mem_map_of_mem hfunction
    have hany : summary.records.any (·.global == Symbol.coverageRecord function) = true :=
      List.any_eq_true.2 ⟨_, hrecord, beq_self_eq_true _⟩
    simp [defines, hany]

/-- The module keeps its name. -/
theorem name_eq (h : summary.Made options encoded m m') : m'.name = m.name := by
  have hputAll : ∀ (vs : List Variable) (m : Module), (m.putAll vs).name = m.name := by
    intro vs
    induction vs with
    | nil => exact fun m => rfl
    | cons v vs ih => exact fun m => (ih (m.putVariable v)).trans Module.name_putVariable
  rw [h.module, Module.name_putVariable, Module.withRuntime]
  split <;> exact hputAll _ m

end EmissionSummary.Made

namespace Action

variable {s s' : Session} {options : CoverageOptions} {compress : Bytes → Bytes}
  {summary : EmissionSummary}

/-- **What an emission describes, and what it leaves alone**, wherever public operations have led
before it. -/
theorem describes_of_emitWith (hs : s.Reachable)
    (h : emitWith compress options s = .ok summary s') :
    summary.Describes options s.module s'.module := by
  obtain ⟨hmade, hskipped⟩ := made_and_skipped_of_emitWith h
  have hafter : s'.Reachable := by
    have hend := hs.emission compress options
    rwa [h] at hend
  refine ⟨?_, ?_, ?_, ?_, ?_, ?_, hafter.distinct.globals, hmade.filter_not_defines, ?_,
    hmade.name_eq⟩
  · have hmap : summary.records.map (Symbol.counters ·.function)
        = (summary.records.map (·.function)).map Symbol.counters := List.map_map.symm
    rw [hmap, hmade.map_function_records, ← Module.filterMap_namesWithHeader,
      Symbol.map_counters_filterMap]
  · rw [hskipped]
    refine List.filter_congr fun name _ => ?_
    simp only [decide_not, Symbol.isCounters_iff, Bool.decide_eq_true, Option.not_isSome]
  · rw [hmade.filenamesHash, hmade.filenames]
    rfl
  · intro r hr
    obtain ⟨function, hfunction, rfl⟩ := hmade.exists_counted hr
    exact ⟨(Module.mem_counted_iff.1 hfunction).2, rfl, rfl, rfl, hmade.filenamesHash.symm⟩
  · rw [hmade.map_function_records]
    exact Module.nodup_counted hs.distinct.globals
  · intro r hr
    rw [hmade.definition?_record hr]
    obtain ⟨function, -, rfl⟩ := hmade.exists_counted hr
    rfl
  · rw [hmade.functions_eq, Module.withRuntime]
    split <;> rfl

/-- Global variables of all sorts: the counter arrays of two functions of which the name of one is
the head of the other's, one whose name has no function in it, one whose name hardly differs, a
record of a function without a counter array, and one that will be replaced. -/
def assortedProgram : List Task :=
  ["__profc_", "__profc_f", "__covrec_f", "__profcf", "__profc_fg", "__covrec_h"].map fun name =>
    .operation (.defineVariable { name, value := .bytes [1] })

/-- The emission for them. -/
theorem describes_assortedProgram :
    let s := performAll assortedProgram (.start "m")
    let options : CoverageOptions := ⟨"a.c", true, false, .elf⟩
    ∃ summary s', s.Reachable ∧ emitWith Zlib.compress options s = .ok summary s' ∧
      summary.records.map (·.function) = ["f", "fg"] ∧
      summary.skipped = ["__profc_", "__covrec_f", "__profcf", "__covrec_h",
        "__llvm_coverage_mapping"] ∧
      summary.Describes options s.module s'.module := by
  intro s options
  have hreachable : s.Reachable := (Session.Reachable.start "m").performAll assortedProgram
  have hfits : options.Fits Zlib.compress := CoverageOptions.fits_short true false .elf
  have hroom : s.module.HasRoom := by
    have hnames : s.module.functionNames = [] := rfl
    refine ⟨?_, fun function => ?_, ?_, by decide⟩ <;> rw [hnames] <;> exact List.not_mem_nil
  obtain ⟨summary, s', hemit⟩ : (emitWith Zlib.compress options).Runs s :=
    runs_emitWith_iff.2 ⟨hfits, hroom.admits⟩
  have hdescribes := describes_of_emitWith hreachable hemit
  refine ⟨summary, s', hreachable, hemit, ?_, ?_, hdescribes⟩
  · rw [(made_of_emitWith hemit).map_function_records]
    decide
  · rw [hdescribes.skipped]
    decide

end Action

end SourceCoverage
