import SourceCoverage.Proofs.Module.Operations
import SourceCoverage.Proofs.Pipeline.Lowered
import SourceCoverage.Proofs.Pipeline.Preservation

/-!
# What Lowering Leaves Without a Symbol

Lowering deletes the variables that its increments refer to, whoever else refers to them. A module
in which everything is in order is therefore well formed after lowering exactly if nobody else does:
no call, no increment by another intrinsic, no initial value that is kept. One more reference comes
from lowering itself, since the name of a variable that is deleted may be that of a counter array.
Nothing else can go wrong: all other references still lead to symbols, the increments that are left
still call intrinsics, and bodies still end in returns.

## Main results

* `Module.Lowered.hasSymbol_iff`, `Module.Lowered.not_mem_references_iff`: what lowering does to
  symbols and to references.
* `Module.Sound.wellFormed_lower_iff`: when a lowered module is well formed.
* `verifies_lowered`: verification of constructed modules, before and after lowering.
-/

namespace SourceCoverage

namespace Module

/-- Whether lowering takes the symbol of a name away: an increment refers to it, and it is neither
the name of the table of names, which is made anew, nor that of a function. -/
structure Loses (m : Module) (name : String) : Prop where
  nameVariable : name ∈ m.nameVariables
  notTable : name ≠ Symbol.profileNames
  notFunction : name ∉ m.functionNames

/-- Whether nothing refers to a name once the increments are lowered: none of the instructions that
are left alone, none of the values that are kept, and no update of a counter array. -/
structure Released (m : Module) (name : String) : Prop where
  instructions : ∀ f ∈ m.functions, ∀ i ∈ f.instructions, i.increment? = none →
    name ∉ i.references
  values : ∀ g ∈ m.globals, g.name ≠ Symbol.profileNames →
    (∀ function ∈ m.profiledFunctions, g.name ∉ madeNames function) →
      name ∉ g.definition.value.references
  counters : ∀ function ∈ m.profiledFunctions, name ≠ Symbol.counters function

variable {m m' : Module} {profiled : List ProfiledName} {lowering : Lowering} {name : String}

/-! ### Instructions -/

/-- A profiled function is that of the variable of some increment. -/
theorem mem_profiledFunctions_iff {function : String} : function ∈ m.profiledFunctions
    ↔ ∃ f ∈ m.functions, ∃ i ∈ f.instructions, ∃ increment, i.increment? = some increment ∧
      m.namedFunction? increment.nameVariable = some function := by
  simp only [profiledFunctions, nameVariables, increments, List.mem_filterMap, List.mem_map,
    List.mem_flatMap]
  constructor
  · rintro ⟨_, ⟨increment, ⟨f, hf, i, hi, hincrement⟩, rfl⟩, hnamed⟩
    exact ⟨f, hf, i, hi, increment, hincrement, hnamed⟩
  · rintro ⟨f, hf, i, hi, increment, hincrement, hnamed⟩
    exact ⟨_, ⟨increment, ⟨f, hf, i, hi, hincrement⟩, rfl⟩, hnamed⟩

namespace Lowered

variable (h : Lowered m lowering profiled m')
include h

/-- The profiled names tell for each variable of an increment whose name it holds. -/
theorem profiledFunction?_eq (hname : name ∈ m.nameVariables) :
    profiledFunction? profiled name = m.namedFunction? name := by
  obtain ⟨function, hnamed⟩ := h.named name hname
  have hmem : (⟨name, function⟩ : ProfiledName) ∈ profiled :=
    (h.mem_profiled_iff _).2 ⟨hname, hnamed⟩
  have hsome : (profiled.find? (·.nameVariable = name)).isSome :=
    List.find?_isSome.2 ⟨_, hmem, decide_eq_true rfl⟩
  obtain ⟨p, hfind⟩ := Option.isSome_iff_exists.1 hsome
  have hp : p.nameVariable = name := by simpa using List.find?_some hfind
  have hfunction := ((h.mem_profiled_iff p).1 (List.mem_of_find?_eq_some hfind)).2
  rw [profiledFunction?, hfind, Option.map_some, ← hfunction, hp]

/-- An increment is lowered to an update of the counter array of its function. -/
theorem lower_eq {f : Function} (hf : f ∈ m.functions) {i : Instruction}
    (hi : i ∈ f.instructions) {increment : Increment} (hincrement : i.increment? = some increment) :
    ∃ function, m.namedFunction? increment.nameVariable = some function ∧
      i.lower lowering profiled = if lowering.atomic
        then .atomicAdd (Symbol.counters function) increment.index
        else .loadAddStore (Symbol.counters function) increment.index := by
  have hmem : increment ∈ m.increments :=
    List.mem_flatMap.2 ⟨f, hf, List.mem_filterMap.2 ⟨i, hi, hincrement⟩⟩
  have hname : increment.nameVariable ∈ m.nameVariables := List.mem_map_of_mem hmem
  obtain ⟨function, hnamed⟩ := h.named _ hname
  refine ⟨function, hnamed, ?_⟩
  rw [Instruction.lower, hincrement]
  simp only [h.profiledFunction?_eq hname, hnamed]

end Lowered

/-- The instructions of a function whose body is lowered. -/
theorem instructions_lowered {f : Function} :
    Function.instructions { f with body := f.body.map (·.map (·.lower lowering profiled)) }
      = f.instructions.map (·.lower lowering profiled) := by
  rw [Function.instructions, Function.instructions]
  cases f.body <;> rfl

/-- An instruction that is no increment is left alone. -/
theorem lower_of_increment?_eq_none {i : Instruction} (hi : i.increment? = none) :
    i.lower lowering profiled = i := by
  rw [Instruction.lower, hi]

namespace Lowered

variable (h : Lowered m lowering profiled m')
include h

/-- The instructions after lowering are those before it, lowered. -/
theorem exists_instruction_iff {P : Instruction → Prop} :
    (∃ f ∈ m'.functions, ∃ i ∈ f.instructions, P i)
      ↔ ∃ f ∈ m.functions, ∃ i ∈ f.instructions, P (i.lower lowering profiled) := by
  simp only [h.functions, List.mem_map, exists_exists_and_eq_and, instructions_lowered]

/-- What an instruction refers to once the increments are lowered. -/
theorem mem_references_lower_iff {f : Function} (hf : f ∈ m.functions) {i : Instruction}
    (hi : i ∈ f.instructions) : name ∈ (i.lower lowering profiled).references
      ↔ i.increment? = none ∧ name ∈ i.references ∨ ∃ increment function,
        i.increment? = some increment ∧
          m.namedFunction? increment.nameVariable = some function ∧
          name = Symbol.counters function := by
  cases hincrement : i.increment? with
  | none =>
      rw [lower_of_increment?_eq_none hincrement]
      simp
  | some increment =>
      obtain ⟨function, hnamed, hlower⟩ := h.lower_eq hf hi hincrement
      have hreferences : (i.lower lowering profiled).references = [Symbol.counters function] := by
        rw [hlower]
        split <;> rfl
      rw [hreferences, List.mem_singleton]
      constructor
      · intro hname
        exact .inr ⟨increment, function, rfl, hnamed, hname⟩
      · rintro (⟨hnone, -⟩ | ⟨_, function', heq, hnamed', hname⟩)
        · cases hnone
        · obtain rfl := Option.some.inj heq
          rw [hnamed] at hnamed'
          rw [hname, Option.some.inj hnamed']

/-! ### Symbols and references -/

/-- The functions keep their names and remain intrinsics or not. -/
theorem signatures_eq : m'.signatures = m.signatures := by
  rw [signatures, h.functions, List.map_map, signatures]
  rfl

/-- **The symbols after lowering**: those there were, what was made, and the table of names, but
nothing that lowering takes away. -/
theorem hasSymbol_iff : m'.hasSymbol name ↔ (m.hasSymbol name ∨ name = Symbol.profileNames ∨
    ∃ function ∈ m.profiledFunctions, name ∈ madeNames function) ∧ ¬m.Loses name := by
  rw [Module.hasSymbol_iff, Module.hasSymbol_iff, h.mem_globalNames_iff, functionNames_eq m',
    h.signatures_eq, ← functionNames_eq]
  constructor
  · rintro ((htable | ⟨hglobal, hkept⟩) | hfunction)
    · exact ⟨.inr (.inl htable), fun hlost => hlost.notTable htable⟩
    · refine ⟨?_, fun hlost => hkept hlost.nameVariable⟩
      exact hglobal.elim (fun hold => .inl (.inl hold)) fun hmade => .inr (.inr hmade)
    · exact ⟨.inl (.inr hfunction), fun hlost => hlost.notFunction hfunction⟩
  · rintro ⟨hall, hkept⟩
    by_cases hfunction : name ∈ m.functionNames
    · exact .inr hfunction
    by_cases htable : name = Symbol.profileNames
    · exact .inl (.inl htable)
    have hvariable : name ∉ m.nameVariables := fun hvariable =>
      hkept ⟨hvariable, htable, hfunction⟩
    rcases hall with (hold | hold) | hold | hmade
    · exact .inl (.inr ⟨.inl hold, hvariable⟩)
    · exact absurd hold hfunction
    · exact absurd hold htable
    · exact .inl (.inr ⟨.inr hmade, hvariable⟩)

/-- A variable that is kept and refers to something is none that increments refer to, since those
hold bytes. -/
theorem not_mem_nameVariables (hnodup : m.globalNames.Nodup) {g : Global} (hg : g ∈ m.globals)
    (hname : name ∈ g.definition.value.references) : g.name ∉ m.nameVariables := by
  intro hvariable
  obtain ⟨function, hnamed⟩ := h.named g.name hvariable
  obtain ⟨data, hdata, -⟩ := Option.map_eq_some_iff.1 hnamed
  have hglobal : m.global? g.name = some g := (global?_eq_some_iff hnodup).2 ⟨hg, rfl⟩
  rw [bytes?, hglobal, Option.bind_some] at hdata
  cases hvalue : g.definition.value with
  | bytes _ => simp [hvalue, Constant.references] at hname
  | _ => simp [hvalue, Constant.bytes?] at hdata

/-- What bodies refer to after lowering. -/
theorem exists_body_reference_iff : (∃ f ∈ m'.functions, name ∈ f.references)
    ↔ (∃ f ∈ m.functions, ∃ i ∈ f.instructions, i.increment? = none ∧ name ∈ i.references) ∨
      ∃ function ∈ m.profiledFunctions, name = Symbol.counters function := by
  simp only [Function.references, List.mem_flatMap]
  rw [h.exists_instruction_iff]
  constructor
  · rintro ⟨f, hf, i, hi, hname⟩
    rcases (h.mem_references_lower_iff hf hi).1 hname with
      ⟨hnone, hname⟩ | ⟨increment, function, hincrement, hnamed, hname⟩
    · exact .inl ⟨f, hf, i, hi, hnone, hname⟩
    · have hfunction := mem_profiledFunctions_iff.2 ⟨f, hf, i, hi, increment, hincrement, hnamed⟩
      exact .inr ⟨function, hfunction, hname⟩
  · rintro (⟨f, hf, i, hi, hnone, hname⟩ | ⟨function, hfunction, hname⟩)
    · exact ⟨f, hf, i, hi, (h.mem_references_lower_iff hf hi).2 (.inl ⟨hnone, hname⟩)⟩
    · obtain ⟨f, hf, i, hi, increment, hincrement, hnamed⟩ := mem_profiledFunctions_iff.1 hfunction
      exact ⟨f, hf, i, hi, (h.mem_references_lower_iff hf hi).2
        (.inr ⟨increment, function, hincrement, hnamed, hname⟩)⟩

/-- What the values of variables refer to after lowering, apart from counter arrays. -/
theorem exists_value_reference_iff (hnodup : m.globalNames.Nodup)
    (hname : ∀ function ∈ m.profiledFunctions, name ≠ Symbol.counters function) :
    (∃ g ∈ m'.globals, name ∈ g.definition.value.references) ↔
      ∃ g ∈ m.globals, g.name ≠ Symbol.profileNames ∧
        (∀ function ∈ m.profiledFunctions, g.name ∉ madeNames function) ∧
        name ∈ g.definition.value.references := by
  constructor
  · rintro ⟨g, hg, hmem⟩
    rcases h.known g hg with ⟨hg, htable, hmade⟩ | ⟨function, hfunction, hmade⟩ | ⟨_, _, rfl⟩
    · exact ⟨g, hg, htable, hmade, hmem⟩
    · exact absurd (hmade.eq_counters hmem) (hname function hfunction)
    · cases hmem
  · rintro ⟨g, hg, htable, hmade, hmem⟩
    exact ⟨g, h.kept g hg (h.not_mem_nameVariables hnodup hg hmem) htable hmade, hmem⟩

/-- **Nothing refers to a name after lowering exactly if it is released.** -/
theorem not_mem_references_iff (hnodup : m.globalNames.Nodup) :
    name ∉ m'.references ↔ m.Released name := by
  rw [Module.mem_references_iff, h.exists_body_reference_iff, not_or, not_or]
  constructor
  · rintro ⟨⟨hbodies, hcounters⟩, hvalues⟩
    have hcounters : ∀ function ∈ m.profiledFunctions, name ≠ Symbol.counters function :=
      fun function hfunction hname => hcounters ⟨function, hfunction, hname⟩
    rw [h.exists_value_reference_iff hnodup hcounters] at hvalues
    refine ⟨?_, ?_, hcounters⟩
    · intro f hf i hi hnone hname
      exact hbodies ⟨f, hf, i, hi, hnone, hname⟩
    · intro g hg htable hmade hname
      exact hvalues ⟨g, hg, htable, hmade, hname⟩
  · rintro ⟨hinstructions, hvalues, hcounters⟩
    rw [h.exists_value_reference_iff hnodup hcounters]
    refine ⟨⟨?_, ?_⟩, ?_⟩
    · rintro ⟨f, hf, i, hi, hnone, hname⟩
      exact hinstructions f hf i hi hnone hname
    · rintro ⟨function, hfunction, hname⟩
      exact hcounters function hfunction hname
    · rintro ⟨g, hg, htable, hmade, hname⟩
      exact hvalues g hg htable hmade hname

/-! ### Well-formedness -/

/-- From a sound module, what is referred to after lowering is a symbol unless lowering takes it
away. -/
theorem hasSymbol_or_loses (hsound : m.Sound) (hname : name ∈ m'.references) :
    m'.hasSymbol name ∨ m.Loses name := by
  refine Classical.or_iff_not_imp_right.2 fun hkept => h.hasSymbol_iff.2 ⟨?_, hkept⟩
  -- The counter arrays of profiled functions are made; all else was referred to before.
  by_cases hcounters : ∃ function ∈ m.profiledFunctions, name = Symbol.counters function
  · obtain ⟨function, hfunction, rfl⟩ := hcounters
    exact .inr (.inr ⟨function, hfunction, .head _⟩)
  · have hne : ∀ function ∈ m.profiledFunctions, name ≠ Symbol.counters function :=
      fun function hfunction heq => hcounters ⟨function, hfunction, heq⟩
    refine .inl (hsound.wellFormed.resolved name ?_)
    rw [mem_references_iff] at hname ⊢
    rw [h.exists_body_reference_iff, h.exists_value_reference_iff hsound.nodup hne] at hname
    rcases hname with (⟨f, hf, i, hi, -, hname⟩ | hcounters') | ⟨g, hg, -, -, hname⟩
    · exact .inl ⟨f, hf, List.mem_flatMap.2 ⟨i, hi, hname⟩⟩
    · exact absurd hcounters' hcounters
    · exact .inr ⟨g, hg, hname⟩

/-- Every reference resolves after lowering exactly if all that lowering takes away is released. -/
theorem resolved_iff (hsound : m.Sound) :
    m'.Resolved ↔ ∀ name, m.Loses name → m.Released name := by
  constructor
  · intro hresolved name hlost
    refine (h.not_mem_references_iff hsound.nodup).1 fun hname => ?_
    exact (h.hasSymbol_iff.1 (hresolved name hname)).2 hlost
  · intro hreleased name hname
    refine (h.hasSymbol_or_loses hsound hname).resolve_right fun hlost => ?_
    exact (h.not_mem_references_iff hsound.nodup).2 (hreleased name hlost) hname

/-- The increments that are left after lowering call intrinsics. -/
theorem hasIntrinsic (hwellFormed : m.WellFormed) {f' : Function} (hf' : f' ∈ m'.functions)
    {callee : String} {increment : Increment}
    (hmem : .call callee (some increment) ∈ f'.instructions) : m'.hasIntrinsic callee := by
  have hcall : ∃ f ∈ m'.functions, ∃ i ∈ f.instructions, i = .call callee (some increment) :=
    ⟨f', hf', _, hmem, rfl⟩
  rw [h.exists_instruction_iff] at hcall
  obtain ⟨f, hf, i, hi, hlower⟩ := hcall
  cases hincrement : i.increment? with
  | none =>
      rw [lower_of_increment?_eq_none hincrement] at hlower
      have hintrinsic := hwellFormed.intrinsic f hf callee increment (hlower ▸ hi)
      rwa [hasIntrinsic_eq, h.signatures_eq, ← hasIntrinsic_eq]
  | some _ =>
      obtain ⟨function, -, hupdate⟩ := h.lower_eq hf hi hincrement
      rw [hupdate] at hlower
      split at hlower <;> cases hlower

/-- Bodies that end in returns still do so after lowering. -/
theorem terminated (hwellFormed : m.WellFormed) {f' : Function} (hf' : f' ∈ m'.functions)
    {body : List Instruction} (hbody : f'.body = some body) : body.getLast? = some .ret := by
  rw [h.functions] at hf'
  obtain ⟨f, hf, rfl⟩ := List.mem_map.1 hf'
  obtain ⟨old, hold, rfl⟩ := Option.map_eq_some_iff.1 hbody
  rw [List.getLast?_map, hwellFormed.terminated f hf old hold]
  rfl

end Lowered

section Lower

variable (hsound : m.Sound) (hok : m.lower lowering = .ok m')
include hsound hok

/-- After a sound module is lowered, only what lowering takes away is referred to in vain. -/
theorem Sound.hasSymbol_or_loses (hname : name ∈ m'.references) :
    m'.hasSymbol name ∨ m.Loses name := by
  by_cases hincrements : m.increments = []
  · rw [lower, if_pos hincrements] at hok
    obtain rfl := Except.ok.inj hok
    exact .inl (hsound.wellFormed.resolved name hname)
  · obtain ⟨profiled, hlowered⟩ := lowered_of_lower hsound.nodup hok hincrements
    exact hlowered.hasSymbol_or_loses hsound hname

/-- **Lowering a sound module** leads to a well formed one exactly if all that lowering takes away
is released. -/
theorem Sound.wellFormed_lower_iff :
    m'.WellFormed ↔ ∀ name, m.Loses name → m.Released name := by
  have hwellFormed := hsound.wellFormed
  by_cases hincrements : m.increments = []
  · rw [lower, if_pos hincrements] at hok
    obtain rfl := Except.ok.inj hok
    refine ⟨fun _ name hlost => ?_, fun _ => hwellFormed⟩
    have hname := hlost.nameVariable
    rw [nameVariables, hincrements] at hname
    cases hname
  · obtain ⟨profiled, hlowered⟩ := lowered_of_lower hsound.nodup hok hincrements
    rw [← hlowered.resolved_iff hsound]
    refine ⟨fun hlower => hlower.resolved, fun hresolved => ⟨hresolved, ?_, ?_⟩⟩
    · exact fun f hf callee increment => hlowered.hasIntrinsic hwellFormed hf
    · exact fun f hf body => hlowered.terminated hwellFormed hf

end Lower

end Module

/-! ### Constructed modules -/

/-- The lowering pass, on a module alone, leads to what the module is lowered to. -/
theorem PassAction.lower_of_lowerIncrements {m : Module} {lowering : Lowering} {change : Change}
    {s : PassState} (h : lowerIncrements lowering { module := m } = .ok change s) :
    m.lower lowering = .ok s.module := by
  have hperforms := performs_lowerIncrements lowering
  cases hlower : m.lower lowering with
  | error e =>
      obtain ⟨s', hrun⟩ := hperforms.error { module := m } e (.void _) hlower
      rw [hrun] at h
      cases h
  | ok m' =>
      obtain ⟨change', s', hrun, rfl, -⟩ := hperforms.ok { module := m } m' (.void _) hlower
      rw [hrun] at h
      cases h
      rfl

/-- The lowering pass succeeds where the module can be lowered. -/
theorem PassAction.exists_lowerIncrements {m m' : Module} {lowering : Lowering}
    (h : (m.lower lowering).toOption = some m') :
    ∃ change s, lowerIncrements lowering { module := m } = .ok change s ∧ s.module = m' := by
  cases hlower : m.lower lowering with
  | error e =>
      rw [hlower] at h
      cases h
  | ok lowered =>
      rw [hlower] at h
      obtain rfl := Option.some.inj h
      obtain ⟨change, s, hrun, hmodule, -⟩ :=
        (performs_lowerIncrements lowering).ok { module := m } lowered (.void _) hlower
      exact ⟨change, s, hrun, hmodule⟩

/-- **Verification before and after lowering.** It succeeds on every module that is constructed. If
the increments of one can be lowered, all that can be referred to in vain then is what lowering
takes away: every reference resolves exactly if that is released, and then verification succeeds
again; without ambiguous names, it succeeds only then. -/
theorem verifies_lowered {name : String} {operations : List Operation} {lowering : Lowering}
    {change : Change} {s : PassState}
    (h : PassAction.lowerIncrements lowering { module := construct name operations }
      = .ok change s) :
    (construct name operations).Verifies ∧
    (∀ target ∈ s.module.references,
      s.module.hasSymbol target ∨ (construct name operations).Loses target) ∧
    (s.module.WellFormed ↔ ∀ lost, (construct name operations).Loses lost →
      (construct name operations).Released lost) ∧
    ((∀ lost, (construct name operations).Loses lost →
      (construct name operations).Released lost) → s.module.Verifies) ∧
    (s.module.Unambiguous → s.module.Verifies → ∀ lost, (construct name operations).Loses lost →
      (construct name operations).Released lost) := by
  have hsound := sound_construct name operations
  have hlower := PassAction.lower_of_lowerIncrements h
  have hiff := hsound.wellFormed_lower_iff hlower
  refine ⟨hsound.wellFormed.verifies, fun target => hsound.hasSymbol_or_loses hlower, hiff, ?_, ?_⟩
  · intro hreleased
    exact (hiff.2 hreleased).verifies
  · intro hnames hverifies
    exact hiff.1 (hnames.verifies_iff.1 hverifies)

/-- A function that is instrumented, and one whose name variable is used by another intrinsic. -/
def hooked : List Operation :=
  [.build (.addFunction "f" .externalLinkage), .build (.addFunction "g" .externalLinkage),
    .build (.instrument "f" 2), .prepare "g" 1, .declareIntrinsic "llvm.hook",
    .insert "g" [("llvm.hook", ⟨"__profn_g", 0, 1, 0⟩)],
    .defineVariable { name := "observer", value := .address "__profn_g" }]

/-- Lowering takes away the name variable of the first function only, which is released. -/
theorem verifies_lowered_hooked : ∃ change s,
    PassAction.lowerIncrements ⟨true⟩ { module := construct "m" hooked } = .ok change s ∧
      (construct "m" hooked).Verifies ∧ s.module.Verifies := by
  have hnames : (construct "m" hooked).nameVariables = ["__profn_f", "__profn_f"] := by decide
  have hreleased : (construct "m" hooked).Released "__profn_f" :=
    ⟨by decide, by decide, by decide⟩
  have hsome : ((construct "m" hooked).lower ⟨true⟩).toOption.isSome := by decide
  obtain ⟨m', hlower⟩ := Option.isSome_iff_exists.1 hsome
  obtain ⟨change, s, hrun, -⟩ := PassAction.exists_lowerIncrements hlower
  obtain ⟨hbefore, -, -, hafter, -⟩ := verifies_lowered hrun
  refine ⟨change, s, hrun, hbefore, hafter fun lost hlost => ?_⟩
  -- What an increment by another intrinsic refers to is not taken away.
  have hlost := hlost.nameVariable
  rw [hnames] at hlost
  obtain rfl : lost = "__profn_f" := by simpa using hlost
  exact hreleased

/-- An instrumented function, and a variable that refers to its name variable. -/
def observed : List Operation :=
  [.build (.addFunction "f" .externalLinkage), .build (.instrument "f" 1),
    .defineVariable { name := "observer", value := .address "__profn_f" }]

/-- Verification can succeed before lowering and fail after it. -/
theorem not_verifies_lowered_observed : (construct "m" observed).Verifies ∧ ∃ change s,
    PassAction.lowerIncrements ⟨true⟩ { module := construct "m" observed } = .ok change s ∧
      ¬s.module.Verifies := by
  refine ⟨(sound_construct "m" observed).wellFormed.verifies, ?_⟩
  have hoffence : ((construct "m" observed).lower ⟨true⟩).toOption.map
      (fun m => m.offence? m.referenceGraph)
        = some (some (.undefinedSymbol "observer" "__profn_f")) := by decide
  obtain ⟨m', hlower, hfound⟩ := Option.map_eq_some_iff.1 hoffence
  obtain ⟨change, s, hrun, rfl⟩ := PassAction.exists_lowerIncrements hlower
  refine ⟨change, s, hrun, fun hverifies => ?_⟩
  rw [Module.verifies_iff, hfound] at hverifies
  cases hverifies

end SourceCoverage
