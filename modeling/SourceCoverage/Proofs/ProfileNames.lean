import Mathlib.Data.List.Induction
import SourceCoverage.Proofs.Filenames
import SourceCoverage.Proofs.Interleaving
import SourceCoverage.Proofs.Lifetime
import SourceCoverage.Proofs.NameTable
import SourceCoverage.Proofs.Pipeline.Sparing

/-!
# The Names of All Lowerings

Each lowering deletes the variables that hold the names of the functions that it profiles, and adds
these names to the one table that is there for good. The table stands in a section and has no owner,
so that no deletion of dead symbols takes it away, and neither building nor emitting touches a
variable of its name. So at any point of the work on a module its table is that of the names that
the runs have lowered until then, one chunk for each run that lowered any, and can be read as such.

## Main results

* `Module.Follows.definition?_lower`: what a lowering adds to the table.
* `Module.HasNames.effectOf`, `Stage.hasNames_perform`: the table after passes, and after a stage
  of the work.
* `readNames?_work`: the table is kept, and is read run by run.
-/

namespace SourceCoverage

/-! ### The names that a lowering takes -/

/-- Where the increments have the same of something exactly if they refer to the same variable, the
first uses have all that there is of it, once each. -/
theorem map_firstUses {key : Increment → String} {increments : List Increment}
    (hkey : ∀ i ∈ increments, ∀ j ∈ increments,
      key i = key j ↔ i.nameVariable = j.nameVariable) :
    (firstUses increments).map key = (increments.map key).eraseDups := by
  -- For any uses found so far, of which the fold asks whether they refer to the same variable.
  have hfold : ∀ rest uses : List Increment, rest ⊆ increments → uses ⊆ increments →
      (rest.foldl (fun uses increment =>
        if uses.any (·.nameVariable = increment.nameVariable) then uses
        else uses ++ [increment]) uses).map key
      = (rest.map key).foldl (fun seen x => if x ∈ seen then seen else seen ++ [x])
        (uses.map key) := by
    intro rest
    induction rest with
    | nil => exact fun _ _ _ => rfl
    | cons i rest ih =>
        intro uses hrest huses
        obtain ⟨hi, hrest⟩ := List.cons_subset.1 hrest
        have hseen : uses.any (·.nameVariable = i.nameVariable) ↔ key i ∈ uses.map key := by
          rw [List.any_eq_true, List.mem_map]
          refine exists_congr fun use => and_congr_right fun huse => ?_
          rw [hkey use (huses huse) i hi, decide_eq_true_iff]
        rw [List.map_cons, List.foldl_cons, List.foldl_cons]
        by_cases h : key i ∈ uses.map key
        · rw [if_pos (hseen.2 h), if_pos h]
          exact ih uses hrest huses
        · rw [if_neg (mt hseen.1 h), if_neg h, ← List.map_singleton, ← List.map_append]
          have hone : [i] ⊆ increments := List.cons_subset.2 ⟨hi, List.nil_subset _⟩
          exact ih _ hrest (List.append_subset.2 ⟨huses, hone⟩)
  exact (hfold increments [] (List.Subset.refl _) (List.nil_subset _)).trans (foldl_keepOnce _ rfl)

namespace Module

variable {m m' : Module} {history : History}

/-- The functions whose names the increments of a module use, each once, in the order of their first
uses. -/
def usedNames (m : Module) : List String := m.profiledFunctions.eraseDups

namespace Follows

/-- An increment is of a function that is pending, and uses the name of this function. -/
theorem exists_of_mem_increments (h : m.Follows history) {i : Increment} (hi : i ∈ m.increments) :
    ∃ function, (history function).pending ≠ [] ∧
      i.profiled = ⟨Symbol.nameVariable function, function⟩ ∧
      m.namedFunction? i.nameVariable = some function := by
  obtain ⟨function, count, hcount, index, -, rfl⟩ := h.mem_increments_iff.1 hi
  have hpending : (history function).pending ≠ [] := List.ne_nil_of_mem hcount
  have hglobal := (global?_eq_some_iff h.globalNames).2 ⟨h.nameVariable_mem hpending, rfl⟩
  have hname : (Instrumentation.increment ⟨⟨function⟩, count⟩ index).nameVariable
      = Symbol.nameVariable function := rfl
  have hbytes : m.bytes? (Symbol.nameVariable function) = some (utf8 function) := by
    rw [Module.bytes?]
    exact hglobal ▸ rfl
  refine ⟨function, hpending, profiled_of_nameVariable_eq hname, ?_⟩
  rw [namedFunction?, hname, hbytes, Option.map_some, Text.ofDamagedUtf8_utf8]

/-- The functions that are profiled, in the order of the increments. -/
theorem profiledFunctions_eq (h : m.Follows history) :
    m.profiledFunctions = m.increments.map (·.profiled.function) := by
  rw [profiledFunctions, nameVariables, List.filterMap_map, ← List.filterMap_eq_map]
  refine List.filterMap_congr fun i hi => ?_
  obtain ⟨function, -, hprofiled, hnamed⟩ := h.exists_of_mem_increments hi
  rw [Function.comp_apply, Function.comp_apply, hnamed, hprofiled]

/-- The names that lowering takes from the first uses are those that the increments use. -/
theorem map_profiled_firstUses (h : m.Follows history) :
    ((firstUses m.increments).map Increment.profiled).map (·.function) = m.usedNames := by
  rw [List.map_map, usedNames, h.profiledFunctions_eq]
  refine map_firstUses fun i hi j hj => ?_
  obtain ⟨function, -, hprofiled, -⟩ := h.exists_of_mem_increments hi
  obtain ⟨function', -, hprofiled', -⟩ := h.exists_of_mem_increments hj
  have hname : i.nameVariable = Symbol.nameVariable function :=
    congrArg ProfiledName.nameVariable hprofiled
  have hname' : j.nameVariable = Symbol.nameVariable function' :=
    congrArg ProfiledName.nameVariable hprofiled'
  rw [Function.comp_apply, Function.comp_apply, hprofiled, hprofiled', hname, hname']
  constructor
  · exact fun heq => congrArg Symbol.nameVariable heq
  · intro heq
    cases OwnSymbol.name_inj (a := .nameVariable function) (b := .nameVariable function').1 heq
    rfl

/-- The names that are used are those of pending functions. -/
theorem pending_of_mem_usedNames (h : m.Follows history) {name : String}
    (hname : name ∈ m.usedNames) : (history name).pending ≠ [] := by
  rw [usedNames, List.mem_eraseDups, h.profiledFunctions_eq] at hname
  obtain ⟨i, hi, rfl⟩ := List.mem_map.1 hname
  obtain ⟨function, hpending, hprofiled, -⟩ := h.exists_of_mem_increments hi
  rwa [hprofiled]

/-- Where there are increments, they use some name. -/
theorem usedNames_ne_nil (h : m.Follows history) (hsome : m.increments ≠ []) :
    m.usedNames ≠ [] := by
  obtain ⟨i, hi⟩ := List.exists_mem_of_ne_nil _ hsome
  refine List.ne_nil_of_mem (a := i.profiled.function) ?_
  rw [usedNames, List.mem_eraseDups, h.profiledFunctions_eq]
  exact List.mem_map_of_mem hi

end Follows

/-! ### The table under a pass -/

/-- What is made for a function leaves the table alone. -/
theorem definition?_profile (m : Module) (function : String) (use : Increment) :
    (m.profile function use).definition? Symbol.profileNames
      = m.definition? Symbol.profileNames := by
  have hunmade : Symbol.profileNames ∉ madeNames function :=
    not_mem_madeNames .profileNames nofun nofun function
  rw [definition?, global?_profile_of_not_mem hunmade, definition?]

/-- So does what is made for all functions. -/
theorem definition?_profileAll {uses : List Increment} {profiled : List ProfiledName}
    (hok : m.profileAll uses = .ok (m', profiled)) :
    m'.definition? Symbol.profileNames = m.definition? Symbol.profileNames := by
  induction uses generalizing m profiled with
  | nil =>
      obtain ⟨rfl, -⟩ := Prod.mk.inj (Except.ok.inj hok)
      rfl
  | cons use uses ih =>
      obtain ⟨data, others, -, hrest, -⟩ := profileAll_cons_eq_ok_iff.1 hok
      rw [ih hrest, definition?_profile]

/-- **A lowering adds the names that are used** to those that are kept. -/
theorem Follows.definition?_lower (h : m.Follows history) (hsome : m.increments ≠ [])
    {lowering : Lowering} (hlower : m.lower lowering = .ok m') :
    m'.definition? Symbol.profileNames = some (namesVariable
      ((m.bytes? Symbol.profileNames).getD [] ++ chunkOf m.usedNames)) := by
  obtain ⟨m₁, hall, -⟩ := profileAll_spec h.globalNames (firstUses m.increments)
    fun use huse => h.isUse_of_mem_firstUses huse
  rw [Module.lower, if_neg hsome, hall] at hlower
  obtain rfl := Except.ok.inj hlower
  have hkept : m₁.bytes? Symbol.profileNames = m.bytes? Symbol.profileNames := by
    rw [bytes?_eq, bytes?_eq, definition?_profileAll hall]
  rw [← h.map_profiled_firstUses, ← namesChunk_eq, ← hkept]
  exact definition?_putVariable_self _ _

/-- The deletion of dead symbols leaves the table alone, which is a root. -/
theorem Follows.definition?_withoutDead (h : m.Follows history) :
    m.withoutDead.definition? Symbol.profileNames = m.definition? Symbol.profileNames := by
  refine definition?_of_filter ?_
  by_cases hmem : Symbol.profileNames ∈ m.globalNames
  · obtain ⟨g, hg, hname⟩ := List.mem_map.1 hmem
    obtain ⟨chunks, rfl⟩ := h.describes hg .profileNames hname
    exact filter_globals_restrict
      (roots_subset_liveSymbols _ (mem_roots_of_anchored hg ⟨rfl, .inr rfl⟩))
  · have hnone : ∀ g ∈ m.globals, ¬decide (g.name = Symbol.profileNames) := fun g hg hname =>
      hmem (of_decide_eq_true hname ▸ List.mem_map_of_mem hg)
    rw [List.filter_eq_nil_iff.2 hnone]
    exact List.filter_eq_nil_iff.2 fun g hg => hnone g (List.mem_filter.1 hg).1

end Module

/-- The names that a pass lowers: if it lowers and there are increments, those that they use. -/
def Pass.lowered? (pass : Pass) (m : Module) : Option (List String) :=
  if pass.lowering?.isSome ∧ m.increments ≠ [] then some m.usedNames else none

/-- Only a lowering lowers something, and only where there are increments. -/
theorem Pass.lowered?_eq_some_iff {pass : Pass} {m : Module} {names : List String} :
    pass.lowered? m = some names ↔
      (∃ lowering, pass = .lowerIncrements lowering) ∧ m.increments ≠ [] ∧ m.usedNames = names := by
  have hlowers : pass.lowering?.isSome ↔ ∃ lowering, pass = .lowerIncrements lowering := by
    cases pass <;> simp [Pass.lowering?]
  rw [Pass.lowered?, Option.ite_none_right_eq_some, hlowers, Option.some_inj, and_assoc]

namespace Module

variable {m m' : Module} {history : History} {pass : Pass}

/-- **A pass in the table**, if it lowers something. -/
theorem Follows.definition?_effect_of_some (h : m.Follows history) {names : List String}
    (hlowered : pass.lowered? m = some names) (heffect : pass.effect m = .ok m') :
    m'.definition? Symbol.profileNames = some (namesVariable
      ((m.bytes? Symbol.profileNames).getD [] ++ chunkOf names)) := by
  obtain ⟨⟨lowering, rfl⟩, hsome, rfl⟩ := Pass.lowered?_eq_some_iff.1 hlowered
  exact h.definition?_lower hsome heffect

/-- Any other pass leaves the table alone. -/
theorem Follows.definition?_effect_of_none (h : m.Follows history)
    (hlowered : pass.lowered? m = none) (heffect : pass.effect m = .ok m') :
    m'.definition? Symbol.profileNames = m.definition? Symbol.profileNames := by
  have hidle : Except.ok (ε := PipelineError) m = .ok m' →
      m'.definition? Symbol.profileNames = m.definition? Symbol.profileNames := by
    rintro ⟨⟩
    rfl
  have hboth : Except.ok (ε := PipelineError) m.withoutDead.stripDeadPrototypes = .ok m' →
      m'.definition? Symbol.profileNames = m.definition? Symbol.profileNames := by
    rintro ⟨⟩
    exact h.definition?_withoutDead
  cases pass with
  | lowerIncrements lowering =>
      have hnone : m.increments = [] := by
        by_contra hsome
        cases hlowered.symm.trans (Pass.lowered?_eq_some_iff.2 ⟨⟨lowering, rfl⟩, hsome, rfl⟩)
      rw [Pass.effect, Module.lower, if_pos hnone] at heffect
      exact hidle heffect
  | removeDeadSymbols =>
      obtain rfl := Except.ok.inj heffect
      exact h.definition?_withoutDead
  | stripDeadPrototypes =>
      obtain rfl := Except.ok.inj heffect
      rfl
  | verify =>
      rw [Pass.effect] at heffect
      split at heffect
      · exact hidle heffect
      · cases heffect
  | noOp => exact hidle heffect
  | optimize level =>
      cases level with
      | O0 => exact hidle heffect
      | O1 => exact hboth heffect
      | O2 => exact hboth heffect
      | O3 => exact hboth heffect
      | Os => exact hboth heffect
      | Oz => exact hboth heffect

end Module

/-! ### The table under passes -/

/-- The names that passes lower: those of the first pass that lowers any. -/
def loweredBy : List Pass → Module → Option (List String)
  | [], _ => none
  | pass :: passes, m => (pass.lowered? m).or ((pass.effect m).toOption.bind (loweredBy passes))

/-- Whether the names of all functions with pending increments can stand in a chunk. -/
def History.Separable (history : History) : Prop :=
  ∀ function, (history function).pending ≠ [] → SourceCoverage.Separable function

namespace Module

variable {m m' : Module} {history : History} {pass : Pass} {passes : List Pass}
  {lowerings : List (List String)}

/-- After a pass that lowers something there are no increments. -/
theorem increments_effect_of_some {names : List String} (hlowered : pass.lowered? m = some names)
    (heffect : pass.effect m = .ok m') : m'.increments = [] := by
  obtain ⟨⟨lowering, rfl⟩, -, -⟩ := Pass.lowered?_eq_some_iff.1 hlowered
  exact increments_lower heffect

/-- Where there are no increments, nothing is lowered. -/
theorem loweredBy_eq_none (hnone : m.increments = []) : loweredBy passes m = none := by
  induction passes generalizing m with
  | nil => rfl
  | cons pass passes ih =>
      have hfirst : pass.lowered? m = none := if_neg fun h => h.2 hnone
      rw [loweredBy, hfirst, Option.none_or]
      cases heffect : pass.effect m with
      | error e => rfl
      | ok m₁ =>
          have hone : effectOf [pass] m = .ok m₁ := by
            rw [effectOf, heffect]
            rfl
          exact ih (increments_effectOf_of_eq_nil hnone hone)

/-- A pass lets no function become pending. -/
theorem Follows.exists_effect_separable (h : m.Follows history) (hseparable : history.Separable)
    (pass : Pass) : ∃ m' history', pass.effect m = .ok m' ∧ m'.Follows history' ∧
      history'.Separable := by
  obtain ⟨m', history', heffect, hfollows, hshape⟩ := h.effect pass
  refine ⟨m', history', heffect, hfollows, fun name hpending => hseparable name fun hnil => ?_⟩
  by_cases hdefines : m'.Defines name
  · rw [(hshape name hdefines).2] at hpending
    cases hlowering : pass.lowering? with
    | none => exact hpending (by rwa [hlowering])
    | some lowering => exact hpending (by rw [hlowering]; rfl)
  · exact hpending (by rw [hfollows.undefined name hdefines]; rfl)

/-- The table of names of a module is that of the names of some lowerings, which can be read. -/
structure HasNames (m : Module) (lowerings : List (List String)) : Prop where
  definition : m.definition? Symbol.profileNames
    = if lowerings = [] then none else some (namesVariable (nameTable lowerings))
  nonempty : ∀ names ∈ lowerings, names ≠ []
  separable : ∀ names ∈ lowerings, ∀ name ∈ names, Separable name

namespace HasNames

/-- The names that are kept. -/
theorem bytes?_getD (h : m.HasNames lowerings) :
    (m.bytes? Symbol.profileNames).getD [] = nameTable lowerings := by
  rw [bytes?_eq, h.definition]
  split
  · next hnil =>
      rw [hnil]
      rfl
  · rfl

/-- Where the table is left alone, it has the names that it had. -/
theorem of_definition?_eq (h : m.HasNames lowerings)
    (hsame : m'.definition? Symbol.profileNames = m.definition? Symbol.profileNames) :
    m'.HasNames lowerings :=
  ⟨hsame.trans h.definition, h.nonempty, h.separable⟩

/-- **A pass** adds the names that it lowers. -/
theorem effect (h : m.HasNames lowerings) (hfollows : m.Follows history)
    (hseparable : history.Separable) (heffect : pass.effect m = .ok m') :
    m'.HasNames (lowerings ++ (pass.lowered? m).toList) := by
  cases hlowered : pass.lowered? m with
  | none =>
      rw [Option.toList_none, List.append_nil]
      exact h.of_definition?_eq (hfollows.definition?_effect_of_none hlowered heffect)
  | some names =>
      have hdefinition := hfollows.definition?_effect_of_some hlowered heffect
      obtain ⟨-, hsome, rfl⟩ := Pass.lowered?_eq_some_iff.1 hlowered
      rw [Option.toList_some]
      refine ⟨?_, List.forall_mem_append.2 ⟨h.nonempty, List.forall_mem_singleton.2 ?_⟩,
        List.forall_mem_append.2 ⟨h.separable, List.forall_mem_singleton.2 fun name hname => ?_⟩⟩
      · rw [if_neg (List.append_ne_nil_of_right_ne_nil _ (List.cons_ne_nil _ _)), hdefinition,
          h.bytes?_getD, nameTable_concat]
      · exact hfollows.usedNames_ne_nil hsome
      · exact hseparable name (hfollows.pending_of_mem_usedNames hname)

/-- **Passes in a row** add the names that they lower. After the first pass that lowers any there is
nothing left to lower. -/
theorem effectOf (h : m.HasNames lowerings) (hfollows : m.Follows history)
    (hseparable : history.Separable) (heffect : effectOf passes m = .ok m') :
    m'.HasNames (lowerings ++ (loweredBy passes m).toList) := by
  induction passes generalizing m history lowerings with
  | nil =>
      obtain rfl := Except.ok.inj heffect
      rwa [loweredBy, Option.toList_none, List.append_nil]
  | cons pass passes ih =>
      obtain ⟨m₁, history₁, hfirst, hfollows₁, hseparable₁⟩ :=
        hfollows.exists_effect_separable hseparable pass
      rw [SourceCoverage.effectOf, hfirst] at heffect
      have hrest := ih (h.effect hfollows hseparable hfirst) hfollows₁ hseparable₁ heffect
      rw [loweredBy, hfirst]
      cases hlowered : pass.lowered? m with
      | none =>
          rw [hlowered, Option.toList_none, List.append_nil] at hrest
          exact hrest
      | some names =>
          rw [loweredBy_eq_none (increments_effect_of_some hlowered hfirst), hlowered,
            Option.toList_none, List.append_nil] at hrest
          exact hrest

end HasNames

end Module

/-! ### The table under edits -/

/-- An edit that puts no variable of a name into the module leaves alone what the name is defined
as. -/
theorem Edit.keeps_definition? {e : Edit} {name : String} {definition : Option Variable}
    (hdefine : ∀ v, e = .defineVariable v → name ≠ v.name)
    (hput : ∀ v owner, e = .putOwned v owner → name ≠ v.name) :
    e.Keeps (·.definition? name = definition) := by
  rintro m m' hok rfl
  rcases e.globals_or_put hok with hsame | ⟨v, rfl, -, rfl⟩ | ⟨v, owner, rfl, rfl⟩
  · exact Module.definition?_of_filter (by rw [hsame])
  · exact Module.definition?_putVariable_of_ne (hdefine v rfl)
  · exact Module.definition?_putOwned_of_ne (hput v owner rfl) owner

/-- The edits of an emission leave the table of names alone. -/
theorem CoverageOptions.Emits.keeps_profileNames {options : CoverageOptions} {m : Module} {e : Edit}
    (h : options.Emits m e) (definition : Option Variable) :
    e.Keeps (·.definition? Symbol.profileNames = definition) := by
  refine Edit.keeps_definition? (fun v hv heq => ?_) fun v owner hv => ?_
  · cases h with
    | header =>
        cases hv
        cases OwnSymbol.name_inj (a := .profileNames) (b := .coverageMapping).1 heq
    | @record function record _ =>
        cases hv
        cases OwnSymbol.name_inj (a := .profileNames) (b := .coverageRecord function).1 heq
    | runtime => cases hv
    | runtimeUser =>
        cases hv
        cases OwnSymbol.name_inj (a := .profileNames) (b := .profileRuntimeUser).1 heq
  · cases h <;> cases hv

/-- So do the edits of a building step. -/
theorem BuildStep.keeps_profileNames {step : BuildStep} {m : Module} {e : Edit}
    (h : (Operation.build step).Makes m e) (definition : Option Variable) :
    e.Keeps (·.definition? Symbol.profileNames = definition) := by
  refine Edit.keeps_definition? (fun v hv heq => ?_) fun v owner hv => ?_
  · cases h with
    | @instrument function _ _ _ hpreparation =>
        rcases List.mem_pair.1 hpreparation with rfl | rfl
        · cases hv
        · cases hv
          cases OwnSymbol.name_inj (a := .profileNames) (b := .nameVariable function).1 heq
    | _ => cases hv
  · cases h with
    | instrument _ hpreparation =>
        rcases List.mem_pair.1 hpreparation with rfl | rfl <;> cases hv
    | _ => cases hv

/-! ### The table under stages of the work -/

namespace Stage

variable {s : Session} {history : History} {lowerings : List (List String)}

/-- The names that a stage lowers: a run lowers what its passes lower. -/
def lowered? (stage : Stage) (s : Session) : Option (List String) :=
  match stage with
  | build _ => none
  | run _ config => config.pipeline.toOption.bind fun pipeline => loweredBy pipeline.passes s.module

/-- Whether the names that a stage gives can stand in a chunk. -/
def Separable : Stage → Prop
  | build step => ∀ name ∈ step.names, SourceCoverage.Separable name
  | run _ _ => True

/-- Names are looked at one by one. -/
instance (stage : Stage) : Decidable stage.Separable :=
  match stage with
  | build step => inferInstanceAs (Decidable (∀ name ∈ step.names, SourceCoverage.Separable name))
  | run _ _ => inferInstanceAs (Decidable True)

/-- **A stage** adds the names that it lowers, whether it succeeds or not. -/
theorem hasNames_perform (h : s.module.HasNames lowerings) (hfollows : s.module.Follows history)
    (hseparable : history.Separable) (stage : Stage) :
    (stage.perform s).module.HasNames (lowerings ++ (stage.lowered? s).toList) := by
  cases stage with
  | build step =>
      rw [lowered?, Option.toList_none, List.append_nil]
      exact h.of_definition?_eq ((Operation.build step).perform_keeps
        (fun e he => BuildStep.keeps_profileNames he _) rfl)
  | run compress config =>
      rw [perform_run, lowered?]
      cases hbuild : config.pipeline with
      | error e =>
          obtain ⟨log, hrun⟩ := Action.runWith_of_build_error hbuild s
          rw [hrun, Except.toOption, Option.bind_none, Option.toList_none, List.append_nil]
          exact h
      | ok pipeline =>
          obtain ⟨m, -, heffect, -⟩ := hfollows.effectOf pipeline.passes
          have hpassed := h.effectOf hfollows hseparable heffect
          rw [Except.toOption, Option.bind_some]
          rcases Action.module_endOf_runWith hbuild heffect with hend | ⟨options, s₁, -, rfl, hend⟩
          · rwa [hend]
          · rw [hend]
            exact hpassed.of_definition?_eq
              (Action.emitWith_keeps compress (fun e he => he.keeps_profileNames _) rfl)

end Stage

/-! ### The whole work -/

/-- The names that the runs of some work lower, run by run. -/
def loweredNames : List Stage → Session → List (List String)
  | [], _ => []
  | stage :: stages, s => (stage.lowered? s).toList ++ loweredNames stages (stage.perform s)

/-- Further work lowers further names. -/
theorem loweredNames_append (earlier later : List Stage) (s : Session) :
    loweredNames (earlier ++ later) s
      = loweredNames earlier s ++ loweredNames later (work earlier s) := by
  induction earlier generalizing s with
  | nil => rfl
  | cons stage earlier ih =>
      rw [List.cons_append, loweredNames, ih, loweredNames, List.append_assoc]
      rfl

/-- The work leads to a module that follows a history in which all names are separable that can be
lowered. -/
theorem follows_work_separable (name : String) {stages : List Stage}
    (hstages : ∀ stage ∈ stages, stage.Unreserved ∧ stage.Separable) :
    ∃ history, (work stages (.start name)).module.Follows history ∧ history.Separable := by
  obtain ⟨history, hfollows, htally⟩ := follows_work (s := .start name) (.empty name)
    (fun _ => {}) (fun _ => rfl) fun stage hstage => (hstages stage hstage).1
  refine ⟨history, hfollows, fun function hpending => ?_⟩
  obtain ⟨count, hcount⟩ := List.exists_mem_of_ne_nil _ hpending
  have hcounted : count ∈ (tallies stages (.start name) (fun _ => {}) function).pending := by
    rw [← htally]
    exact hcount
  rcases mem_tallies (List.mem_append_left _ hcounted) with hnone | hinstrument
  · cases hnone
  · have hnames : ∀ name ∈ [function], SourceCoverage.Separable name := (hstages _ hinstrument).2
    exact hnames function (.head _)

/-- **The whole work**, stage by stage: the table has the names of all runs until then. The
induction is on the last stage, since a history is known of the work as a whole. -/
theorem hasNames_work (name : String) {stages : List Stage}
    (hstages : ∀ stage ∈ stages, stage.Unreserved ∧ stage.Separable) :
    (work stages (.start name)).module.HasNames (loweredNames stages (.start name)) := by
  induction stages using List.reverseRecOn with
  | nil => exact ⟨rfl, nofun, nofun⟩
  | append_singleton stages stage ih =>
      obtain ⟨hstages, -⟩ := List.forall_mem_append.1 hstages
      obtain ⟨history, hfollows, hseparable⟩ := follows_work_separable name hstages
      have hlast := Stage.hasNames_perform (ih hstages) hfollows hseparable stage
      rw [work_append, loweredNames_append, loweredNames, loweredNames, List.append_nil]
      exact hlast

/-- The table of names of a module that follows a history, as a global variable. -/
theorem Module.HasNames.global?_eq {m : Module} {history : History}
    {lowerings : List (List String)} (h : m.HasNames lowerings) (hfollows : m.Follows history)
    (hsome : lowerings ≠ []) :
    m.global? Symbol.profileNames = some ⟨namesVariable (nameTable lowerings), none⟩ := by
  have hdefinition := h.definition
  rw [if_neg hsome] at hdefinition
  obtain ⟨g, hglobal, hg⟩ := Option.map_eq_some_iff.1 hdefinition
  obtain ⟨hmem, hname⟩ := (Module.global?_eq_some_iff hfollows.globalNames).1 hglobal
  obtain ⟨chunks, rfl⟩ := hfollows.describes hmem .profileNames hname
  rw [hglobal, ← hg]

/-- **The names of all lowerings are kept and can be read.** Once a run has lowered something, the
table of names is private, in its section, and without an owner. Whatever work follows, successful
or not, keeps the table and at most adds to it. At any point it is read to its end as the names that
the runs have lowered until then, run by run. -/
theorem readNames?_work (name : String) (earlier later : List Stage)
    (hstages : ∀ stage ∈ earlier ++ later, stage.Unreserved ∧ stage.Separable)
    (hsome : loweredNames earlier (.start name) ≠ []) :
    ∃ data added : Bytes,
      (work earlier (.start name)).module.global? Symbol.profileNames
        = some ⟨namesVariable data, none⟩ ∧
      (work (earlier ++ later) (.start name)).module.global? Symbol.profileNames
        = some ⟨namesVariable (data ++ added), none⟩ ∧
      (data.length < UInt64.size →
        readNames? data = some (loweredNames earlier (.start name))) ∧
      ((data ++ added).length < UInt64.size →
        readNames? (data ++ added) = some (loweredNames earlier (.start name)
          ++ loweredNames later (work earlier (.start name)))) := by
  have hearlier : ∀ stage ∈ earlier, stage.Unreserved ∧ stage.Separable :=
    fun stage hstage => hstages stage (List.mem_append_left _ hstage)
  obtain ⟨_, hfollows, -⟩ := follows_work_separable name hearlier
  obtain ⟨_, hfollows', -⟩ := follows_work_separable name hstages
  have hnames := hasNames_work name hearlier
  have hnames' := hasNames_work name hstages
  rw [loweredNames_append] at hnames'
  refine ⟨nameTable (loweredNames earlier (.start name)),
    nameTable (loweredNames later (work earlier (.start name))),
    hnames.global?_eq hfollows hsome, ?_,
    readNames?_nameTable hnames.nonempty hnames.separable, ?_⟩
  · rw [← nameTable_append]
    exact hnames'.global?_eq hfollows' (List.append_ne_nil_of_left_ne_nil hsome _)
  · rw [← nameTable_append]
    exact readNames?_nameTable hnames'.nonempty hnames'.separable

/-- Two functions are instrumented and lowered. -/
def loweredOnce : List Stage :=
  [.build (.addFunction "f" .externalLinkage), .build (.addFunction "g" .externalLinkage),
    .build (.instrument "g" 1), .build (.instrument "f" 2),
    .run Zlib.compress ⟨"instrprof", none⟩]

/-- One of them is instrumented again, and lowered by a run with coverage. -/
def loweredAgain : List Stage :=
  [.build (.instrument "f" 3),
    .run Zlib.compress ⟨"globaldce,instrprof<atomic>", some ⟨"a.c", true, true, .elf⟩⟩]

/-- The names are in the order of the functions in the module, which is that of the increments. -/
theorem loweredNames_loweredOnce : loweredNames loweredOnce (.start "m") = [["f", "g"]] := by
  let built : List Stage := [.build (.addFunction "f" .externalLinkage),
    .build (.addFunction "g" .externalLinkage), .build (.instrument "g" 1),
    .build (.instrument "f" 2)]
  let config : RunConfig := ⟨"instrprof", none⟩
  have hbuild : config.pipeline = .ok ⟨[.lowerIncrements ⟨false⟩]⟩ :=
    Action.pipeline_plain_eq_ok_iff.2 (by cbv)
  have hlast : loweredNames loweredOnce (.start "m")
      = ((Stage.run Zlib.compress config).lowered? (work built (.start "m"))).toList ++ [] := rfl
  have hbuilt : ∀ stage ∈ built, stage.Unreserved ∧ stage.Separable := by decide
  obtain ⟨_, hfollows, -⟩ := follows_work_separable "m" hbuilt
  have hused : (work built (.start "m")).module.usedNames = ["f", "g"] := by
    rw [Module.usedNames, hfollows.profiledFunctions_eq]
    decide
  have hsome : (work built (.start "m")).module.increments ≠ [] := by decide
  rw [hlast, Stage.lowered?, hbuild, Except.toOption, Option.bind_some, loweredBy, Pass.lowered?,
    if_pos ⟨rfl, hsome⟩, hused]
  rfl

/-- What further work adds to the names of two functions does not keep these from being read. -/
theorem readNames?_loweredOnce_loweredAgain :
    (∀ stage ∈ loweredOnce ++ loweredAgain, stage.Unreserved ∧ stage.Separable) ∧
      loweredNames loweredOnce (.start "m") ≠ [] ∧ ∃ data added : Bytes,
        (work loweredOnce (.start "m")).module.global? Symbol.profileNames
          = some ⟨namesVariable data, none⟩ ∧
        (work (loweredOnce ++ loweredAgain) (.start "m")).module.global? Symbol.profileNames
          = some ⟨namesVariable (data ++ added), none⟩ ∧
        (data.length < UInt64.size → readNames? data = some [["f", "g"]]) ∧
        ((data ++ added).length < UInt64.size → readNames? (data ++ added)
          = some (["f", "g"] :: loweredNames loweredAgain (work loweredOnce (.start "m")))) := by
  have hstages : ∀ stage ∈ loweredOnce ++ loweredAgain, stage.Unreserved ∧ stage.Separable := by
    decide
  have hsome : loweredNames loweredOnce (.start "m") ≠ [] := by
    rw [loweredNames_loweredOnce]
    exact List.cons_ne_nil _ _
  refine ⟨hstages, hsome, ?_⟩
  have h := readNames?_work "m" loweredOnce loweredAgain hstages hsome
  rw [loweredNames_loweredOnce] at h
  exact h

end SourceCoverage
