import Mathlib.Data.List.Forall2
import SourceCoverage.Proofs.Pipeline.Sparing

/-!
# Lowered Modules Count the Same

In a module whose increments refer to name variables as instrumentation makes them, every increment
tells by its name variable which counter it increments: an element of the counter array of the
function whose name the variable holds. Lowering such a module does not fail. It puts an update of
that element in the place of each increment and keeps all other instructions where they are,
whatever the order in which the increments of several functions stand. The counter array is as long
as the first increment of the function says, and the profile data record repeats what this increment
says; neither depends on what was there under its name before. The name variables are deleted, and
no other variable is touched but the table of names.

## Main results

* `Module.Instrumented.lower_eq`: lowering succeeds, and what it makes.
* `Module.global?_profileEach_of_mem`: the first increment decides what is made.
* `PassAction.lowerIncrements_counts`: the lowered module counts as the module did.
-/

namespace SourceCoverage

/-! ### What a lowered module is -/

/-- What lowering puts in the place of an instruction. -/
inductive Instruction.LowersTo (lowering : Lowering) : Instruction → Instruction → Prop
  /-- An increment becomes an update of its counter that cannot be interrupted. -/
  | atomic {name : String} {use : Increment} :
      lowering.atomic = true → use.nameVariable = Symbol.nameVariable name →
      LowersTo lowering (.call Symbol.incrementIntrinsic (some use))
        (.atomicAdd (Symbol.counters name) use.index)
  /-- An increment becomes an update of its counter in several steps. -/
  | plain {name : String} {use : Increment} :
      lowering.atomic = false → use.nameVariable = Symbol.nameVariable name →
      LowersTo lowering (.call Symbol.incrementIntrinsic (some use))
        (.loadAddStore (Symbol.counters name) use.index)
  /-- Any other instruction stays. -/
  | other {i : Instruction} :
      (∀ use, i ≠ .call Symbol.incrementIntrinsic (some use)) → LowersTo lowering i i

/-- An instruction is an increment if it calls the intrinsic and has arguments. -/
theorem Instruction.increment?_eq_some_iff {i : Instruction} {use : Increment} :
    i.increment? = some use ↔ i = .call Symbol.incrementIntrinsic (some use) := by
  cases i with
  | call callee increment => cases increment <;> simp [increment?]
  | _ => simp [increment?]

/-- What lowering makes of a function: the same function, with its body lowered instruction by
instruction. -/
structure Function.LowersTo (lowering : Lowering) (f f' : Function) : Prop where
  name : f'.name = f.name
  linkage : f'.linkage = f.linkage
  isIntrinsic : f'.isIntrinsic = f.isIntrinsic
  body : Option.Rel (List.Forall₂ (Instruction.LowersTo lowering)) f.body f'.body

/-- A function is lowered by lowering each of its instructions. -/
theorem Function.lowersTo_map {lowering : Lowering} {f : Function}
    {change : Instruction → Instruction}
    (h : ∀ i ∈ f.instructions, i.LowersTo lowering (change i)) :
    f.LowersTo lowering { f with body := f.body.map (·.map change) } := by
  refine ⟨rfl, rfl, rfl, ?_⟩
  cases hbody : f.body with
  | none => exact .none
  | some body =>
      refine .some (List.forall₂_map_right_iff.2 (List.forall₂_same.2 fun i hi => h i ?_))
      rwa [instructions, hbody]

namespace Module

/-- Whether an increment refers to a name variable as instrumentation makes it, which is named for a
function and holds the bytes of its name. -/
def NamedBy (m : Module) (use : Increment) : Prop :=
  ∃ name, use.nameVariable = Symbol.nameVariable name ∧
    m.bytes? (Symbol.nameVariable name) = some (utf8 name)

/-- Whether all increments of a module do so, and no two global variables share a name. -/
structure Instrumented (m : Module) : Prop where
  nodup : m.globalNames.Nodup
  named : ∀ use, m.Has (.call Symbol.incrementIntrinsic (some use)) → m.NamedBy use

/-- The first increment of the counters of a function. -/
def firstUse? (m : Module) (name : String) : Option Increment :=
  m.increments.find? (·.nameVariable = Symbol.nameVariable name)

/-- Whether one module is another one with its increments lowered. -/
structure LowersTo (lowering : Lowering) (m m' : Module) : Prop where
  name : m'.name = m.name
  functions : List.Forall₂ (Function.LowersTo lowering) m.functions m'.functions
  lowered : ∀ use, ¬m'.Has (.call Symbol.incrementIntrinsic (some use))
  nodup : m'.globalNames.Nodup
  counters : ∀ name use, m.firstUse? name = some use → m'.global? (Symbol.counters name) = some
    { definition :=
        { name := Symbol.counters name
          value := .counters use.counterCount
          linkage := .privateLinkage
          sectionName := some countersSection
          alignment := some 8 }
      owner := some name }
  profileData : ∀ name use, m.firstUse? name = some use →
    m'.global? (Symbol.profileData name) = some
      { definition :=
          { name := Symbol.profileData name
            value := .struct [.u64 (nameHash (utf8 name)), .u64 use.functionHash,
              .address (Symbol.counters name), .u32 use.counterCount]
            linkage := .privateLinkage
            sectionName := some profileDataSection
            alignment := some 8 }
        owner := some name }
  deleted : ∀ name use, m.firstUse? name = some use → Symbol.nameVariable name ∉ m'.globalNames
  others : ∀ q : String → Bool, q Symbol.profileNames = false →
    (∀ name use, m.firstUse? name = some use → q (Symbol.counters name) = false ∧
      q (Symbol.profileData name) = false ∧ q (Symbol.nameVariable name) = false) →
    m'.globals.filter (q ·.name) = m.globals.filter (q ·.name)

variable {m m' : Module} {lowering : Lowering} {name : String} {use : Increment}
  {uses : List Increment}

/-! ### Increments and what they name -/

/-- The increments of a module are those calls of the intrinsic that have arguments. -/
theorem mem_increments_iff_has_call :
    use ∈ m.increments ↔ m.Has (.call Symbol.incrementIntrinsic (some use)) := by
  rw [mem_increments_iff_has]
  constructor
  · rintro ⟨i, hi, hincrement⟩
    exact Instruction.increment?_eq_some_iff.1 hincrement ▸ hi
  · exact fun hcall => ⟨_, hcall, Instruction.increment?_eq_some_iff.2 rfl⟩

/-- The function that such an increment is of is the one whose name the variable holds. -/
theorem NamedBy.bytes?_eq (h : m.NamedBy use) :
    m.bytes? use.nameVariable = some (utf8 use.profiled.function) := by
  obtain ⟨name, hname, hbytes⟩ := h
  rw [profiled_of_nameVariable_eq hname, hname, hbytes]

/-- Its name variable is named for this function. -/
theorem NamedBy.nameVariable_eq (h : m.NamedBy use) :
    use.nameVariable = Symbol.nameVariable use.profiled.function := by
  obtain ⟨name, hname, -⟩ := h
  rw [profiled_of_nameVariable_eq hname, hname]

/-- What is made for a function leaves name variables alone. -/
theorem NamedBy.profile (h : m.NamedBy use) (function : String) (other : Increment) :
    (m.profile function other).NamedBy use := by
  obtain ⟨name, hname, hbytes⟩ := h
  have hkept : (m.profile function other).global? (Symbol.nameVariable name)
      = m.global? (Symbol.nameVariable name) :=
    global?_profile_of_not_mem (not_mem_madeNames (.nameVariable name) nofun nofun function)
  refine ⟨name, hname, ?_⟩
  rw [bytes?, hkept]
  exact hbytes

/-- The first increments of an instrumented module refer to its name variables. -/
theorem Instrumented.namedBy_of_mem_firstUses (h : m.Instrumented)
    (huse : use ∈ firstUses m.increments) : m.NamedBy use :=
  h.named use (mem_increments_iff_has_call.1 (mem_increments_of_mem_firstUses huse))

/-- The first increment of a function's counters is kept of the increments. -/
theorem mem_firstUses_of_firstUse? (h : m.firstUse? name = some use) :
    use ∈ firstUses m.increments ∧ use.nameVariable = Symbol.nameVariable name := by
  rw [firstUse?] at h
  have hname : use.nameVariable = Symbol.nameVariable name := by simpa using List.find?_some h
  obtain ⟨first, hfirst, hsame⟩ :=
    (firstUses_spec m.increments).complete use (List.mem_of_find?_eq_some h)
  have hfound := (firstUses_spec m.increments).first first hfirst
  rw [hsame, hname] at hfound
  exact ⟨Option.some.inj (hfound.symm.trans h) ▸ hfirst, hname⟩

/-! ### What is made -/

/-- The variables that are made as an increment demands. -/
def madeAsDemanded (use : Increment) : List Global :=
  [⟨counterArray use.profiled.function use.counterCount, some use.profiled.function⟩,
    ⟨profileDataRecord use.profiled.function use.functionHash use.counterCount,
      some use.profiled.function⟩]

/-- They are named for the function of the increment. -/
theorem name_mem_of_madeAsDemanded {g : Global} (h : g ∈ madeAsDemanded use) :
    g.name ∈ madeNames use.profiled.function := by
  rcases List.mem_pair.1 h with rfl | rfl
  · exact .head _
  · exact .tail _ (.head _)

/-- What an increment demands is found under its name once it was made. -/
theorem global?_profile_of_mem {g : Global} (h : g ∈ madeAsDemanded use) :
    (m.profile use.profiled.function use).global? g.name = some g := by
  rcases List.mem_pair.1 h with rfl | rfl
  · -- The record is made after the counter array and has another name.
    have hother : decide (Symbol.profileData use.profiled.function
        = Symbol.counters use.profiled.function) = false :=
      decide_eq_false (counters_ne_profileData _ _).symm
    refine (global?_of_filter ?_).trans (global?_putOwned_self m _ _)
    exact filter_globals_putOwned
      (q := (decide <| · = Symbol.counters use.profiled.function)) hother _
  · exact global?_putOwned_self _ _ _

/-- The module with what each of some increments demands. -/
def profileEach (m : Module) (uses : List Increment) : Module :=
  uses.foldl (fun m use => m.profile use.profiled.function use) m

/-- Where increments refer to name variables as instrumentation makes them, what they demand can be
made. -/
theorem profileAll_eq (h : ∀ use ∈ uses, m.NamedBy use) :
    m.profileAll uses = .ok (m.profileEach uses, uses.map (·.profiled)) := by
  induction uses generalizing m with
  | nil => rfl
  | cons use uses ih =>
      obtain ⟨huse, hrest⟩ := List.forall_mem_cons.1 h
      refine profileAll_cons_eq_ok_iff.2 ⟨_, uses.map (·.profiled), huse.bytes?_eq, ?_, ?_⟩
      · rw [Text.ofDamagedUtf8_utf8]
        exact ih fun later hlater => (hrest later hlater).profile _ _
      · rw [Text.ofDamagedUtf8_utf8]
        rfl

/-- Through a filter of names that drops those of all that is made, the variables of a module look
the same after it was made. -/
theorem filter_globals_profileEach {q : String → Bool}
    (h : ∀ use ∈ uses, ∀ made ∈ madeNames use.profiled.function, q made = false) :
    (m.profileEach uses).globals.filter (q ·.name) = m.globals.filter (q ·.name) := by
  induction uses generalizing m with
  | nil => rfl
  | cons use uses ih =>
      obtain ⟨huse, hrest⟩ := List.forall_mem_cons.1 h
      exact (ih hrest).trans (filter_globals_profile huse)

/-- **The increment of a function decides what is made for it** if no other one among those that
count is of this function. Induction on the increments that remain: the variable is there already,
or the increment is still to come. -/
theorem global?_profileEach_of_mem (hmem : use ∈ uses)
    (hsame : ∀ other ∈ uses, other.profiled.function = use.profiled.function → other = use)
    {g : Global} (hg : g ∈ madeAsDemanded use) (m : Module) :
    (m.profileEach uses).global? g.name = some g := by
  have hkept : ∀ (uses : List Increment) (m : Module),
      (∀ other ∈ uses, other.profiled.function = use.profiled.function → other = use) →
      use ∈ uses ∨ m.global? g.name = some g → (m.profileEach uses).global? g.name = some g := by
    intro uses
    induction uses with
    | nil => exact fun m _ hthere => hthere.resolve_left List.not_mem_nil
    | cons other uses ih =>
        intro m hsame hthere
        obtain ⟨hother, hrest⟩ := List.forall_mem_cons.1 hsame
        refine ih (m.profile other.profiled.function other) hrest ?_
        by_cases hfunction : other.profiled.function = use.profiled.function
        · obtain rfl := hother hfunction
          exact .inr (global?_profile_of_mem hg)
        · have hunmade : g.name ∉ madeNames other.profiled.function := fun hmade =>
            hfunction (eq_of_mem_madeNames hmade (name_mem_of_madeAsDemanded hg))
          rw [global?_profile_of_not_mem hunmade]
          refine hthere.imp_left fun hmem => (List.mem_cons.1 hmem).resolve_left ?_
          rintro rfl
          exact hfunction rfl
  exact hkept uses m hsame (.inl hmem)

/-- A module keeps its name while variables are made for functions. -/
theorem name_profileEach : (m.profileEach uses).name = m.name := by
  induction uses generalizing m with
  | nil => rfl
  | cons use uses ih =>
      have hputOwned : ∀ (m : Module) (v : Variable) (owner : String),
          (m.putOwned v owner).name = m.name := fun _ _ _ => name_putVariable
      exact ih.trans ((hputOwned _ _ _).trans (hputOwned _ _ _))

/-- A module keeps its name when names are folded. -/
theorem name_foldNames {profiled : List ProfiledName} : (m.foldNames profiled).name = m.name := by
  rw [foldNames, name_putVariable]
  induction profiled generalizing m with
  | nil => rfl
  | cons p profiled ih => exact ih (m := m.removeGlobal p.nameVariable)

/-! ### The pass -/

/-- A module without increments needs no lowering. -/
theorem lowersTo_self (hnodup : m.globalNames.Nodup) (hnone : m.increments = []) :
    m.LowersTo lowering m := by
  have hcall : ∀ use, ¬m.Has (.call Symbol.incrementIntrinsic (some use)) := by
    intro use hcall
    have hmem := mem_increments_iff_has_call.2 hcall
    rw [hnone] at hmem
    cases hmem
  have hunused : ∀ name use, m.firstUse? name ≠ some use := by
    intro name use huse
    rw [firstUse?, hnone] at huse
    cases huse
  have hfunctions : ∀ f ∈ m.functions, f.LowersTo lowering f := by
    intro f hf
    have hsame : f.LowersTo lowering { f with body := f.body.map (·.map id) } :=
      Function.lowersTo_map fun i hi => .other fun use heq => hcall use ⟨f, hf, heq ▸ hi⟩
    simpa using hsame
  exact ⟨rfl, List.forall₂_same.2 hfunctions, hcall, hnodup,
    fun name use huse => absurd huse (hunused name use),
    fun name use huse => absurd huse (hunused name use),
    fun name use huse => absurd huse (hunused name use), fun _ _ _ => rfl⟩

namespace Instrumented

variable (h : m.Instrumented)
include h

/-- **Lowering an instrumented module succeeds**: what each first increment demands is made, bodies
are lowered, and the names are folded. -/
theorem lower_eq (hsome : m.increments ≠ []) : m.lower lowering
    = .ok (((m.profileEach (firstUses m.increments)).lowerBodies lowering
        ((firstUses m.increments).map (·.profiled))).foldNames
        ((firstUses m.increments).map (·.profiled))) := by
  rw [lower, if_neg hsome, profileAll_eq fun use huse => h.namedBy_of_mem_firstUses huse]
  rfl

/-- Only one of the first increments is of a function. -/
theorem eq_of_mem_firstUses {other : Increment} (huse : use ∈ firstUses m.increments)
    (hother : other ∈ firstUses m.increments)
    (hfunction : other.profiled.function = use.profiled.function) : other = use := by
  have hname : other.nameVariable = use.nameVariable := by
    rw [(h.namedBy_of_mem_firstUses hother).nameVariable_eq, hfunction,
      ← (h.namedBy_of_mem_firstUses huse).nameVariable_eq]
  have hfound := (firstUses_spec m.increments).first other hother
  rw [hname, (firstUses_spec m.increments).first use huse] at hfound
  exact (Option.some.inj hfound).symm

/-- An instruction is lowered to what it should be. -/
theorem instruction_lowersTo {profiled : List ProfiledName}
    (hlowered : Lowered m lowering profiled m') {f : Function} (hf : f ∈ m.functions)
    {i : Instruction} (hi : i ∈ f.instructions) :
    i.LowersTo lowering (i.lower lowering profiled) := by
  cases hincrement : i.increment? with
  | none =>
      rw [lower_of_increment?_eq_none hincrement]
      refine .other fun use heq => ?_
      rw [Instruction.increment?_eq_some_iff.2 heq] at hincrement
      cases hincrement
  | some use =>
      obtain rfl := Instruction.increment?_eq_some_iff.1 hincrement
      obtain ⟨name, hname, hbytes⟩ := h.named use ⟨f, hf, hi⟩
      obtain ⟨function, hnamed, hlower⟩ := hlowered.lower_eq hf hi hincrement
      rw [namedFunction?, hname, hbytes, Option.map_some, Text.ofDamagedUtf8_utf8] at hnamed
      obtain rfl := Option.some.inj hnamed
      rw [hlower]
      cases hatomic : lowering.atomic with
      | true => exact .atomic hatomic hname
      | false => exact .plain hatomic hname

/-- Functions are lowered to what they should be. -/
theorem functions_lowersTo {profiled : List ProfiledName}
    (hlowered : Lowered m lowering profiled m') :
    List.Forall₂ (Function.LowersTo lowering) m.functions m'.functions := by
  rw [hlowered.functions, List.forall₂_map_right_iff, List.forall₂_same]
  exact fun f hf => Function.lowersTo_map fun i hi => h.instruction_lowersTo hlowered hf hi

/-- The name variables are those of the functions that are profiled. -/
theorem nameVariable_of_mem_profiled {p : ProfiledName}
    (hp : p ∈ (firstUses m.increments).map (·.profiled)) :
    p.nameVariable = Symbol.nameVariable p.function := by
  obtain ⟨use, huse, rfl⟩ := List.mem_map.1 hp
  exact (h.namedBy_of_mem_firstUses huse).nameVariable_eq

section Lower

variable (hsome : m.increments ≠ []) (hok : m.lower lowering = .ok m')
include hsome hok

/-- What a first increment demands is found after lowering. -/
theorem global?_lower (huse : use ∈ firstUses m.increments) {g : Global}
    (hg : g ∈ madeAsDemanded use) : m'.global? g.name = some g := by
  rw [h.lower_eq hsome] at hok
  obtain rfl := Except.ok.inj hok
  have hmade : g.name ∈ madeNames use.profiled.function := name_mem_of_madeAsDemanded hg
  have htable : decide (Symbol.profileNames = g.name) = false :=
    decide_eq_false (ne_of_mem_of_not_mem hmade
      (not_mem_madeNames .profileNames nofun nofun _)).symm
  have hvariables : ∀ p ∈ (firstUses m.increments).map (·.profiled),
      decide (p.nameVariable = g.name) = false := by
    intro p hp
    rw [h.nameVariable_of_mem_profiled hp]
    exact decide_eq_false (ne_of_mem_of_not_mem hmade
      (not_mem_madeNames (.nameVariable p.function) nofun nofun _)).symm
  -- Folding the names touches neither of the two variables.
  refine (global?_of_filter
    (filter_globals_foldNames (q := (decide <| · = g.name)) htable hvariables)).trans ?_
  exact global?_profileEach_of_mem huse (fun other hother => h.eq_of_mem_firstUses huse hother) hg m

/-- Through a filter of names that drops all that is made or deleted, the variables of a module look
the same after lowering. -/
theorem filter_globals_lower {q : String → Bool} (htable : q Symbol.profileNames = false)
    (huses : ∀ use ∈ firstUses m.increments, q (Symbol.counters use.profiled.function) = false ∧
      q (Symbol.profileData use.profiled.function) = false ∧
      q (Symbol.nameVariable use.profiled.function) = false) :
    m'.globals.filter (q ·.name) = m.globals.filter (q ·.name) := by
  rw [h.lower_eq hsome] at hok
  obtain rfl := Except.ok.inj hok
  have hvariables : ∀ p ∈ (firstUses m.increments).map (·.profiled), q p.nameVariable = false := by
    intro p hp
    rw [h.nameVariable_of_mem_profiled hp]
    obtain ⟨use, huse, rfl⟩ := List.mem_map.1 hp
    exact (huses use huse).2.2
  have hmade : ∀ use ∈ firstUses m.increments, ∀ made ∈ madeNames use.profiled.function,
      q made = false := by
    intro use huse made hmade
    rcases List.mem_pair.1 hmade with rfl | rfl
    · exact (huses use huse).1
    · exact (huses use huse).2.1
  exact (filter_globals_foldNames htable hvariables).trans (filter_globals_profileEach hmade)

/-- **What an instrumented module is lowered to.** -/
theorem lowersTo_of_lower : m.LowersTo lowering m' := by
  obtain ⟨profiled, hlowered⟩ := lowered_of_lower h.nodup hok hsome
  have hfunction : ∀ {name use}, m.firstUse? name = some use → use.profiled.function = name := by
    intro name use huse
    rw [profiled_of_nameVariable_eq (mem_firstUses_of_firstUse? huse).2]
  constructor
  case name =>
    rw [h.lower_eq hsome] at hok
    rw [← Except.ok.inj hok, name_foldNames]
    exact name_profileEach
  case functions => exact h.functions_lowersTo hlowered
  case lowered =>
    intro use hcall
    have hmem := mem_increments_iff_has_call.2 hcall
    rw [increments_lower hok] at hmem
    cases hmem
  case nodup => exact hlowered.nodup
  case counters =>
    intro name use huse
    have hmade := h.global?_lower hsome hok (mem_firstUses_of_firstUse? huse).1 (.head _)
    rwa [hfunction huse] at hmade
  case profileData =>
    intro name use huse
    have hmade := h.global?_lower hsome hok (mem_firstUses_of_firstUse? huse).1 (.tail _ (.head _))
    rwa [hfunction huse] at hmade
  case deleted =>
    intro name use huse hmem
    obtain ⟨hfirst, hname⟩ := mem_firstUses_of_firstUse? huse
    rcases (hlowered.mem_globalNames_iff _).1 hmem with htable | ⟨-, hunused⟩
    · cases (OwnSymbol.name_inj (a := .nameVariable name) (b := .profileNames)).1 htable
    · exact hunused (hname ▸ List.mem_map_of_mem (mem_increments_of_mem_firstUses hfirst))
  case others =>
    intro q htable hnames
    refine h.filter_globals_lower hsome hok htable fun use huse => hnames _ use ?_
    have hfound := (firstUses_spec m.increments).first use huse
    rwa [(h.namedBy_of_mem_firstUses huse).nameVariable_eq] at hfound

end Lower

/-- An instrumented module can be lowered. -/
theorem exists_lowersTo (lowering : Lowering) :
    ∃ m', m.lower lowering = .ok m' ∧ m.LowersTo lowering m' := by
  by_cases hnone : m.increments = []
  · exact ⟨m, if_pos hnone, lowersTo_self h.nodup hnone⟩
  · exact ⟨_, h.lower_eq hnone, h.lowersTo_of_lower hnone (h.lower_eq hnone)⟩

end Instrumented

end Module

/-- **Lowering an instrumented module** succeeds, whatever analyses are at hand, and leads to what
the module should be lowered to. It says that it left the module alone exactly if it did. Lowering
once more, in either way, finds nothing to do. -/
theorem PassAction.lowerIncrements_counts {s : PassState} (h : s.module.Instrumented)
    (lowering : Lowering) :
    ∃ change s', lowerIncrements lowering s = .ok change s' ∧
      s.module.LowersTo lowering s'.module ∧ (change = .unchanged ↔ s'.module = s.module) ∧
      ∀ (again : Lowering) (t : PassState), t.module = s'.module →
        lowerIncrements again t = .ok .unchanged t := by
  obtain ⟨m, hlower, hlowers⟩ := h.exists_lowersTo lowering
  obtain ⟨change, s', hrun, rfl, -, hchange⟩ := lowerIncrements_run hlower
  have hnone := Module.increments_lower hlower
  refine ⟨change, s', hrun, hlowers, hchange.trans ⟨fun hold => ?_, fun hsame => ?_⟩, ?_⟩
  · rw [Module.lower, if_pos hold] at hlower
    exact (Except.ok.inj hlower).symm
  · rwa [hsame] at hnone
  · intro again t ht
    exact lowerIncrements_of_eq_nil again (ht ▸ hnone)

/-- Two functions whose increments stand among each other and demand different counts; calls that
are no increments, one of them by another intrinsic; and variables that are in the way: one in the
place of a counter array, one that refers to a name variable, and a table of names that holds no
bytes. -/
def entangledModule : Module where
  name := "m"
  functions :=
    [⟨"f", .externalLinkage, some [
        .call "llvm.instrprof.increment" (some ⟨"__profn_f", 7, 2, 1⟩),
        .call "llvm.hook" (some ⟨"__profn_f", 0, 9, 0⟩),
        .call "llvm.instrprof.increment" (some ⟨"__profn_g", 8, 3, 0⟩),
        .call "llvm.instrprof.increment" none,
        .call "llvm.instrprof.increment" (some ⟨"__profn_f", 9, 5, 0⟩), .ret], false⟩,
      ⟨"g", .internalLinkage, some [
        .call "llvm.instrprof.increment" (some ⟨"__profn_g", 0, 1, 2⟩),
        .call "f" none, .ret], false⟩,
      ⟨"llvm.instrprof.increment", .externalLinkage, none, true⟩]
  globals :=
    [⟨{ name := "__profn_f", value := .bytes (utf8 "f") }, none⟩,
      ⟨{ name := "__profc_f", value := .u32 1 }, some "g"⟩,
      ⟨{ name := "observer", value := .address "__profn_f" }, none⟩,
      ⟨{ name := "__profn_g", value := .bytes (utf8 "g") }, none⟩,
      ⟨{ name := "__llvm_prf_nm", value := .u32 0 }, some "f"⟩]

/-- What it is lowered to. -/
theorem PassAction.lowerIncrements_entangledModule :
    entangledModule.Instrumented ∧ ∃ change s',
      lowerIncrements ⟨true⟩ { module := entangledModule } = .ok change s' ∧
      entangledModule.LowersTo ⟨true⟩ s'.module ∧
      s'.module.functions =
        [⟨"f", .externalLinkage, some [.atomicAdd "__profc_f" 1,
            .call "llvm.hook" (some ⟨"__profn_f", 0, 9, 0⟩), .atomicAdd "__profc_g" 0,
            .call "llvm.instrprof.increment" none, .atomicAdd "__profc_f" 0, .ret], false⟩,
          ⟨"g", .internalLinkage, some [.atomicAdd "__profc_g" 2, .call "f" none, .ret], false⟩,
          ⟨"llvm.instrprof.increment", .externalLinkage, none, true⟩] ∧
      s'.module.globalNames = ["__profc_f", "observer", "__llvm_prf_nm", "__profd_f", "__profc_g",
        "__profd_g"] ∧
      lowerIncrements ⟨false⟩ { module := s'.module }
        = .ok .unchanged { module := s'.module } := by
  have hall : ∀ use ∈ entangledModule.increments, ∃ name ∈ ["f", "g"],
      use.nameVariable = Symbol.nameVariable name ∧
        entangledModule.bytes? (Symbol.nameVariable name) = some (utf8 name) := by decide
  have hinstrumented : entangledModule.Instrumented := by
    refine ⟨by decide, fun use hcall => ?_⟩
    obtain ⟨name, -, hnamed⟩ := hall use (Module.mem_increments_iff_has_call.2 hcall)
    exact ⟨name, hnamed⟩
  obtain ⟨change, s', hrun, hlowers, -, hagain⟩ :=
    lowerIncrements_counts (s := { module := entangledModule }) hinstrumented ⟨true⟩
  have hmodule : s'.module = (entangledModule.lower ⟨true⟩).toOption.getD entangledModule := by
    rw [lower_of_lowerIncrements hrun]
    rfl
  refine ⟨hinstrumented, change, s', hrun, hlowers, ?_, ?_, hagain _ _ rfl⟩
  · rw [hmodule]
    decide
  · rw [hmodule]
    decide

end SourceCoverage
