import SourceCoverage.Proofs.Pipeline.Steps

/-!
# Passes Spare Coverage Data

The header, the records and the reference to the runtime that an emission puts into a module are
left alone by the passes of later runs, but for deletion: no pass puts such a variable into the
module or gives it another value. This is so of every step of a pass, and so of every end, since a
pass that fails half way has changed the module already. Nor is it deleted where the variable is
*pinned*: it has no owner, the linker or its section keeps it alive, and no increment refers to it.

## Main results

* `Module.PassStep.sublist_coverageData`: a step spares coverage data.
* `Module.Pinned.step`: a step leaves pinned coverage data as it is.
* `Pipeline.run_spares`: a run spares coverage data, wherever it ends.
-/

namespace SourceCoverage

/-! ### Coverage data of a module -/

/-- Whether a name is that of a variable which an emission puts into a module. -/
def Symbol.isCoverageData (name : String) : Bool :=
  name = coverageMapping || (after? "__covrec_" name).isSome || name = profileRuntimeUser

/-- The names of coverage data are those of the header, of the records, and of the reference to
the runtime. -/
theorem Symbol.isCoverageData_iff {name : String} : isCoverageData name ↔
    name = coverageMapping ∨ (∃ function, name = coverageRecord function) ∨
      name = profileRuntimeUser := by
  simp [isCoverageData, Option.isSome_iff_exists, after?_eq_some_iff, coverageRecord, or_assoc]

/-- A symbol of instrumentation of another kind is not coverage data. -/
theorem Symbol.isCoverageData_eq_false (symbol : OwnSymbol)
    (hmapping : symbol ≠ .coverageMapping) (hrecord : ∀ f, symbol ≠ .coverageRecord f)
    (huser : symbol ≠ .profileRuntimeUser) : isCoverageData symbol.name = false := by
  rw [Bool.eq_false_iff, ne_eq, isCoverageData_iff]
  rintro (h | ⟨f, h⟩ | h)
  · exact hmapping (OwnSymbol.name_inj.1 h)
  · exact hrecord f (OwnSymbol.name_inj.1 h)
  · exact huser (OwnSymbol.name_inj.1 h)

/-- The coverage data of a module: those of its variables that an emission put into it. -/
def Module.coverageData (m : Module) : List Global :=
  m.globals.filter fun g => Symbol.isCoverageData g.name

/-- Whether a global variable is alive whatever refers to it: it has no owner, and it may be
referred to from other modules or stands in a section. -/
def Global.Anchored (g : Global) : Prop :=
  g.owner = none ∧ (g.definition.linkage.isDiscardable = false ∨ g.definition.sectionName.isSome)

namespace Module

variable {m m' : Module} {v : Variable}

/-- A variable of another name that is put into a module leaves coverage data as it was. -/
theorem coverageData_putVariable (h : Symbol.isCoverageData v.name = false) :
    (m.putVariable v).coverageData = m.coverageData :=
  filter_globals_putVariable h

/-- What the first increment of a function's counters demands leaves coverage data as it was. -/
theorem coverageData_profile (m : Module) (function : String) (use : Increment) :
    (m.profile function use).coverageData = m.coverageData := by
  have hcounters := Symbol.isCoverageData_eq_false (.counters function) nofun nofun nofun
  have hdata := Symbol.isCoverageData_eq_false (.profileData function) nofun nofun nofun
  refine filter_globals_profile fun made hmade => ?_
  rcases List.mem_pair.1 hmade with rfl | rfl
  · exact hcounters
  · exact hdata

/-- The deletion of variables leaves some of the coverage data. -/
theorem coverageData_removeGlobal (m : Module) (name : String) :
    (m.removeGlobal name).coverageData.Sublist m.coverageData :=
  List.filter_sublist.filter _

/-- Folding name variables leaves some of the coverage data, since a name variable may have any
name. -/
theorem coverageData_foldNames (m : Module) (profiled : List ProfiledName) :
    (m.foldNames profiled).coverageData.Sublist m.coverageData := by
  have hnames := Symbol.isCoverageData_eq_false .profileNames nofun nofun nofun
  rw [foldNames, coverageData_putVariable hnames]
  induction profiled generalizing m with
  | nil => exact List.Sublist.refl _
  | cons name profiled ih => exact (ih _).trans (coverageData_removeGlobal m _)

/-- The deletion of dead symbols leaves some of the coverage data. -/
theorem coverageData_restrict (m : Module) (live : List String) :
    (m.restrict live).coverageData.Sublist m.coverageData :=
  List.filter_sublist.filter _

/-- **A step of a pass spares coverage data.** -/
theorem PassStep.sublist_coverageData (h : PassStep m m') :
    m'.coverageData.Sublist m.coverageData := by
  cases h with
  | profile function _ => exact (coverageData_profile m function _).symm ▸ List.Sublist.refl _
  | fold lowering _ _ => exact coverageData_foldNames (m.lowerBodies lowering _) _
  | restrict _ => exact coverageData_restrict m _
  | strip => exact List.Sublist.refl m.coverageData

/-! ### Pinned variables -/

/-- An anchored variable is a root. -/
theorem mem_roots_of_anchored {g : Global} (hg : g ∈ m.globals) (h : g.Anchored) :
    g.name ∈ m.roots := by
  refine List.mem_append_right _ (List.mem_map_of_mem (List.mem_filter.2 ⟨hg, ?_⟩))
  obtain ⟨howner, hkept⟩ := h
  simpa [howner] using hkept

/-- Whether coverage data of a name is out of the reach of passes: a variable of this name is
anchored, and no increment refers to the name. -/
structure Pinned (m : Module) (name : String) : Prop where
  coverageData : Symbol.isCoverageData name
  anchored : ∃ g ∈ m.globals, g.name = name ∧ g.Anchored
  unused : name ∉ m.nameVariables

/-- The variables of a name that is alive after the deletion of dead symbols. -/
theorem filter_globals_restrict {name : String} {live : List String} (h : name ∈ live) :
    (m.restrict live).globals.filter (·.name = name) = m.globals.filter (·.name = name) := by
  rw [restrict, List.filter_filter]
  refine List.filter_congr fun g _ => ?_
  by_cases hname : g.name = name
  · simp [hname, h]
  · simp [hname]

/-- **A step leaves pinned coverage data as it is**, and pinned. -/
theorem Pinned.step {name : String} (h : m.Pinned name) (hstep : PassStep m m') :
    m'.globals.filter (·.name = name) = m.globals.filter (·.name = name) ∧ m'.Pinned name := by
  have hother (symbol : OwnSymbol) (hsymbol : Symbol.isCoverageData symbol.name = false) :
      decide (symbol.name = name) = false := by
    refine decide_eq_false fun heq => ?_
    rw [heq, h.coverageData] at hsymbol
    cases hsymbol
  have hsame : m'.globals.filter (·.name = name) = m.globals.filter (·.name = name) := by
    cases hstep with
    | profile function _ =>
        have hcounters := hother (.counters function)
          (Symbol.isCoverageData_eq_false _ nofun nofun nofun)
        have hdata := hother (.profileData function)
          (Symbol.isCoverageData_eq_false _ nofun nofun nofun)
        refine filter_globals_profile (q := (decide <| · = name)) fun made hmade => ?_
        rcases List.mem_pair.1 hmade with rfl | rfl
        · exact hcounters
        · exact hdata
    | fold lowering _ hprofiled =>
        have htable := hother .profileNames (Symbol.isCoverageData_eq_false _ nofun nofun nofun)
        exact filter_globals_foldNames (q := (decide <| · = name)) htable fun p hp =>
          decide_eq_false fun heq => h.unused (heq ▸ hprofiled p hp)
    | restrict hroots =>
        obtain ⟨g, hg, rfl, hanchored⟩ := h.anchored
        exact filter_globals_restrict (hroots (mem_roots_of_anchored hg hanchored))
    | strip => rfl
  obtain ⟨g, hg, hname, hanchored⟩ := h.anchored
  have hmem : g ∈ m'.globals.filter (·.name = name) :=
    hsame ▸ List.mem_filter.2 ⟨hg, decide_eq_true hname⟩
  exact ⟨hsame, h.coverageData, ⟨g, (List.mem_filter.1 hmem).1, hname, hanchored⟩,
    fun hunused => h.unused (hstep.nameVariables_subset hunused)⟩

end Module

namespace PassAction

/-- An operation that spares coverage data: wherever it ends, no such variable has been put into
the module or been given another value. -/
def Spares {α : Type} (action : PassAction α) : Prop :=
  ∀ s, (endOf (action s)).module.coverageData.Sublist s.module.coverageData

/-- Passes in a row spare coverage data. -/
theorem spares_runPasses (passes : List Pass) : Spares (runPasses passes) := fun s =>
  Module.keeps_of_steps (P := (·.coverageData.Sublist s.module.coverageData))
    (fun _ _ hstep hsublist => hstep.sublist_coverageData.trans hsublist)
    (steps_runPasses passes s) (List.Sublist.refl _)

end PassAction

/-- **A run of passes spares coverage data**, wherever it ends. -/
theorem Pipeline.run_spares (pipeline : Pipeline) (s : Session) :
    (endOf (pipeline.run s)).module.coverageData.Sublist s.module.coverageData := by
  have hpasses := PassAction.spares_runPasses pipeline.passes { module := s.module, log := s.log }
  have hmodule : (endOf (pipeline.run s)).module = (endOf (PassAction.runPasses pipeline.passes
      { module := s.module, log := s.log })).module := by
    rw [Pipeline.run]
    cases PassAction.runPasses pipeline.passes { module := s.module, log := s.log } <;> rfl
  rw [hmodule]
  exact hpasses

end SourceCoverage
