import SourceCoverage.Proofs.Module.Unlowered
import SourceCoverage.Proofs.Pipeline.Pruning
import SourceCoverage.Proofs.Room

/-!
# Counter Arrays and Profile Data Records

Lowering makes a counter array and a profile data record for each profiled function, and gives both
to the function. They do not come to the same end for all that. Nothing needs a record but its
owner, so that it lives and dies with the function. A counter array is needed by its record as well,
and by every update of its counters; and the updates stand where the increments were inserted, which
may be the body of another function. If that one outlives the function whose counters it updates,
the array stays without its record: its updates have *strayed*.

So after a run with coverage over a module that was built by instrumentation, with increments
anywhere, a record is there exactly if both the counter array and the function are; and a counter
array is there exactly if its record is, or its updates have strayed.

## Main results

* `Module.Paired`: the invariant of pairs, with `Module.Paired.profileData_mem_iff` and
  `Module.Paired.counters_mem_iff` for what it says of them.
* `Module.Unlowered.paired`: lowering makes counter arrays and records in pairs.
* `Module.Paired.withoutDead`, `Module.Paired.stripDeadPrototypes`: what deletions leave of pairs.
* `Action.pairs_of_run`: pairs after a run with coverage.
-/

namespace SourceCoverage

/-! ### Variables of lowering -/

/-- A global variable of a module whose increments are lowered: a counter array or a profile data
record, a variable that holds the name of a function without increments, or the table of names. -/
inductive Global.OfLowering : Global → Prop
  | made {function : String} {g : Global} : Symbol.Unreserved function →
      Module.MadeFor function g → OfLowering g
  | name (function : String) : OfLowering ⟨nameVariable function, none⟩
  | table (chunks : Bytes) (owner : Option String) : OfLowering ⟨namesVariable chunks, owner⟩

namespace Global.OfLowering

variable {g : Global}

/-- The variables of lowering have the names of symbols of instrumentation, but not those of its
functions. -/
theorem exists_symbol (h : g.OfLowering) : ∃ symbol : OwnSymbol,
    symbol ≠ .incrementIntrinsic ∧ symbol ≠ .profileRuntime ∧ g.name = symbol.name := by
  cases h with
  | made _ hmade =>
      cases hmade with
      | counters count => exact ⟨.counters _, nofun, nofun, rfl⟩
      | profileData hash count => exact ⟨.profileData _, nofun, nofun, rfl⟩
  | name function => exact ⟨.nameVariable function, nofun, nofun, rfl⟩
  | table chunks owner => exact ⟨.profileNames, nofun, nofun, rfl⟩

/-- A variable with the name of what is made for a function is made for it. -/
theorem madeFor (h : g.OfLowering) {function : String}
    (hname : g.name ∈ Module.madeNames function) :
    Symbol.Unreserved function ∧ Module.MadeFor function g := by
  cases h with
  | made hunreserved hmade =>
      obtain rfl := Module.eq_of_mem_madeNames hmade.name_mem hname
      exact ⟨hunreserved, hmade⟩
  | name other =>
      exact absurd hname
        (Module.not_mem_madeNames (.nameVariable other) (by simp) (by simp) function)
  | table chunks owner =>
      exact absurd hname (Module.not_mem_madeNames .profileNames (by simp) (by simp) function)

/-- Only records refer to something, each to the counter array of its function. -/
theorem exists_record (h : g.OfLowering) {name : String}
    (hname : name ∈ g.definition.value.references) : ∃ function,
      g.name = Symbol.profileData function ∧ name = Symbol.counters function := by
  cases h with
  | made _ hmade => exact ⟨_, hmade.name_eq_profileData hname, hmade.eq_counters hname⟩
  | name function => cases hname
  | table chunks owner => cases hname

end Global.OfLowering

/-! ### Pairs -/

/-- The **invariant of pairs**: a record is there only with the function that it is for, a counter
array has its record as long as the function is there, and one without its record is referred to by
some body. -/
structure Module.Paired (m : Module) : Prop where
  unambiguous : m.Unambiguous
  resolved : m.Resolved
  function : ∀ f ∈ m.functions, f.OfProgram
  global : ∀ g ∈ m.globals, g.OfLowering
  unreferred : ∀ f ∈ m.functions, ∀ name, Symbol.profileData name ∉ f.references
  owned : ∀ name, Symbol.profileData name ∈ m.globalNames → name ∈ m.functionNames
  described : ∀ name ∈ m.functionNames, Symbol.counters name ∈ m.globalNames →
    Symbol.profileData name ∈ m.globalNames
  used : ∀ name, Symbol.counters name ∈ m.globalNames → Symbol.profileData name ∈ m.globalNames ∨
    ∃ f ∈ m.functions, Symbol.counters name ∈ f.references

/-- Whether updates of the counters of a function have outlived it: the function is not there any
more, but some body updates its counters. -/
def Module.Strays (m : Module) (function : String) : Prop :=
  function ∉ m.functionNames ∧ ∃ f ∈ m.functions, Symbol.counters function ∈ f.references

namespace Module.Paired

variable {m : Module} {name function : String}

/-- What has the name of what is made for a function is made for it. -/
theorem exists_madeFor (h : m.Paired) (hname : name ∈ m.globalNames)
    (hmade : name ∈ madeNames function) : Symbol.Unreserved function ∧
      ∃ g ∈ m.globals, g.name = name ∧ MadeFor function g := by
  obtain ⟨g, hg, rfl⟩ := List.mem_map.1 hname
  obtain ⟨hunreserved, hfor⟩ := (h.global g hg).madeFor hmade
  exact ⟨hunreserved, g, hg, rfl, hfor⟩

/-- The symbols of instrumentation are no functions, apart from the increment intrinsic. -/
theorem not_mem_functionNames (h : m.Paired) (symbol : OwnSymbol)
    (hne : symbol ≠ .incrementIntrinsic) : symbol.name ∉ m.functionNames := by
  intro hmem
  obtain ⟨f, hf, hname⟩ := List.mem_map.1 hmem
  exact (h.function f hf).name_ne symbol hne hname

/-- A function with an unreserved name is no global variable. -/
theorem mem_functionNames_of_hasSymbol (h : m.Paired) (hunreserved : Symbol.Unreserved name)
    (hname : m.hasSymbol name) : name ∈ m.functionNames := by
  refine (hasSymbol_iff.1 hname).resolve_left fun hglobal => ?_
  obtain ⟨g, hg, heq⟩ := List.mem_map.1 hglobal
  obtain ⟨symbol, -, -, hsymbol⟩ := (h.global g hg).exists_symbol
  exact OwnSymbol.ne_name_of_unreserved hunreserved symbol (heq.symm.trans hsymbol)

/-- A counter array that is referred to is there. -/
theorem counters_mem_of_reference (h : m.Paired)
    (hname : Symbol.counters function ∈ m.references) :
    Symbol.counters function ∈ m.globalNames :=
  (hasSymbol_iff.1 (h.resolved _ hname)).resolve_right
    (h.not_mem_functionNames (.counters function) nofun)

/-- A record is there with its counter array only. -/
theorem counters_mem_of_profileData_mem (h : m.Paired)
    (hname : Symbol.profileData function ∈ m.globalNames) :
    Symbol.counters function ∈ m.globalNames := by
  obtain ⟨-, g, hg, heq, hmade⟩ := h.exists_madeFor hname (.tail _ (.head _))
  refine h.counters_mem_of_reference (mem_references_iff.2 (.inr ⟨g, hg, ?_⟩))
  cases hmade with
  | counters count => exact absurd heq (counters_ne_profileData function function)
  | profileData hash count => exact List.mem_singleton_self _

/-- **A record is there** exactly if the counter array and the function are. -/
theorem profileData_mem_iff (h : m.Paired) : Symbol.profileData function ∈ m.globalNames ↔
    Symbol.counters function ∈ m.globalNames ∧ function ∈ m.functionNames := by
  constructor
  · intro hdata
    exact ⟨h.counters_mem_of_profileData_mem hdata, h.owned function hdata⟩
  · rintro ⟨hcounters, hfunction⟩
    exact h.described function hfunction hcounters

/-- **A counter array is there** exactly if its record is, or its updates have outlived the
function. -/
theorem counters_mem_iff (h : m.Paired) : Symbol.counters function ∈ m.globalNames ↔
    Symbol.profileData function ∈ m.globalNames ∨ m.Strays function := by
  constructor
  · intro hcounters
    by_cases hfunction : function ∈ m.functionNames
    · exact .inl (h.described function hfunction hcounters)
    · exact (h.used function hcounters).imp_right fun hbody => ⟨hfunction, hbody⟩
  · rintro (hdata | ⟨-, hbody⟩)
    · exact h.counters_mem_of_profileData_mem hdata
    · exact h.counters_mem_of_reference (mem_references_iff.2 (.inl hbody))

/-- There is room for coverage data beside pairs. -/
theorem hasRoom (h : m.Paired) : m.HasRoom where
  mapping := h.not_mem_functionNames .coverageMapping nofun
  record := fun function => h.not_mem_functionNames (.coverageRecord function) nofun
  user := h.not_mem_functionNames .profileRuntimeUser nofun
  runtime := fun hmem => by
    obtain ⟨g, hg, hname⟩ := List.mem_map.1 hmem
    obtain ⟨symbol, -, hne, hsymbol⟩ := (h.global g hg).exists_symbol
    exact hne (OwnSymbol.name_inj (b := .profileRuntime).1 (hsymbol.symm.trans hname))

/-! ### What keeps pairs alive -/

/-- What is made for a function is no root. -/
theorem not_mem_roots (h : m.Paired) (hmade : name ∈ madeNames function) : name ∉ m.roots := by
  intro hroot
  rcases List.mem_append.1 hroot with hfunction | hglobal
  · obtain ⟨f, hf, rfl⟩ := List.mem_map.1 hfunction
    have hprogram := h.function f (List.mem_filter.1 hf).1
    rcases List.mem_pair.1 hmade with heq | heq
    · exact hprogram.name_ne (.counters function) nofun heq
    · exact hprogram.name_ne (.profileData function) nofun heq
  · obtain ⟨g, hg, rfl⟩ := List.mem_map.1 hglobal
    obtain ⟨hg, hroot⟩ := List.mem_filter.1 hg
    obtain ⟨-, hfor⟩ := (h.global g hg).madeFor hmade
    rw [hfor.owner_eq] at hroot
    cases hroot

/-- A function needs what is made for it. -/
theorem needs_made (h : m.Paired) (hname : name ∈ m.globalNames)
    (hmade : name ∈ madeNames function) : m.Needs function name := by
  obtain ⟨-, g, hg, rfl, hfor⟩ := h.exists_madeFor hname hmade
  exact .owned hg hfor.owner_eq

/-- **Who needs what is made for a function**: the function, its record, or a body that refers to
it. -/
theorem needs_made_cases (h : m.Paired) (hmade : name ∈ madeNames function) {source : String}
    (hneeds : m.Needs source name) : source = function ∨
      (source = Symbol.profileData function ∧ name = Symbol.counters function) ∨
      ∃ f ∈ m.functions, f.name = source ∧ name ∈ f.references := by
  cases hneeds with
  | body hf hname => exact .inr (.inr ⟨_, hf, rfl, hname⟩)
  | value hg hname =>
      obtain ⟨other, hrecord, hcounters⟩ := (h.global _ hg).exists_record hname
      obtain rfl : other = function := eq_of_mem_madeNames (hcounters ▸ .head _) hmade
      exact .inr (.inl ⟨hrecord, hcounters⟩)
  | owned hg howner =>
      obtain ⟨-, hfor⟩ := (h.global _ hg).madeFor hmade
      exact .inl (Option.some.inj (howner.symm.trans hfor.owner_eq))

/-- **A record lives and dies with its function.** -/
theorem alive_profileData_iff (h : m.Paired)
    (hname : Symbol.profileData function ∈ m.globalNames) :
    m.Alive (Symbol.profileData function) ↔ m.Alive function := by
  have hmade : Symbol.profileData function ∈ madeNames function := .tail _ (.head _)
  constructor
  · intro halive
    obtain ⟨source, hsource, hneeds⟩ :=
      halive.root_or_needed.resolve_left (h.not_mem_roots hmade)
    rcases h.needs_made_cases hmade hneeds with rfl | ⟨-, heq⟩ | ⟨f, hf, -, hbody⟩
    · exact hsource
    · exact absurd heq.symm (counters_ne_profileData function function)
    · exact absurd hbody (h.unreferred f hf function)
  · exact fun halive => halive.needs (h.needs_made hname hmade)

/-- **A counter array lives and dies with its record** and with the bodies that refer to it. -/
theorem alive_counters_cases (h : m.Paired) (hname : Symbol.counters function ∈ m.globalNames)
    (halive : m.Alive (Symbol.counters function)) :
    (Symbol.profileData function ∈ m.globalNames ∧ m.Alive (Symbol.profileData function)) ∨
      ∃ f ∈ m.functions, m.Alive f.name ∧ Symbol.counters function ∈ f.references := by
  have hmade : Symbol.counters function ∈ madeNames function := .head _
  obtain ⟨source, hsource, hneeds⟩ := halive.root_or_needed.resolve_left (h.not_mem_roots hmade)
  rcases h.needs_made_cases hmade hneeds with rfl | ⟨rfl, -⟩ | ⟨f, hf, rfl, hbody⟩
  · -- A function that is alive is there, and so is the record.
    obtain ⟨hunreserved, -⟩ := h.exists_madeFor hname hmade
    have hfunction : source ∈ m.functionNames :=
      h.mem_functionNames_of_hasSymbol hunreserved (h.resolved.hasSymbol_of_alive hsource)
    have hdata := h.described source hfunction hname
    exact .inl ⟨hdata, (h.alive_profileData_iff hdata).2 hsource⟩
  · refine .inl ⟨?_, hsource⟩
    exact (hasSymbol_iff.1 (h.resolved.hasSymbol_of_alive hsource)).resolve_right
      (h.not_mem_functionNames (.profileData function) nofun)
  · exact .inr ⟨f, hf, hsource, hbody⟩

/-! ### Deletions -/

/-- **Pairs without dead symbols.** -/
theorem withoutDead (h : m.Paired) : m.withoutDead.Paired where
  unambiguous := h.unambiguous.restrict _
  resolved := h.resolved.withoutDead h.unambiguous
  function := fun f hf => h.function f ((mem_functions_withoutDead h.unambiguous).1 hf).1
  global := fun g hg => h.global g ((mem_globals_withoutDead h.unambiguous).1 hg).1
  unreferred := fun f hf => h.unreferred f ((mem_functions_withoutDead h.unambiguous).1 hf).1
  owned := fun name hname => by
    obtain ⟨hdata, halive⟩ := (mem_globalNames_withoutDead h.unambiguous).1 hname
    exact (mem_functionNames_withoutDead h.unambiguous).2
      ⟨h.owned name hdata, (h.alive_profileData_iff hdata).1 halive⟩
  described := fun name hfunction hname => by
    obtain ⟨hfunction, halive⟩ := (mem_functionNames_withoutDead h.unambiguous).1 hfunction
    obtain ⟨hcounters, -⟩ := (mem_globalNames_withoutDead h.unambiguous).1 hname
    have hdata := h.described name hfunction hcounters
    exact (mem_globalNames_withoutDead h.unambiguous).2
      ⟨hdata, (h.alive_profileData_iff hdata).2 halive⟩
  used := fun name hname => by
    obtain ⟨hcounters, halive⟩ := (mem_globalNames_withoutDead h.unambiguous).1 hname
    refine (h.alive_counters_cases hcounters halive).imp
      (mem_globalNames_withoutDead h.unambiguous).2 ?_
    rintro ⟨f, hf, halive, hbody⟩
    exact ⟨f, (mem_functions_withoutDead h.unambiguous).2 ⟨hf, halive⟩, hbody⟩

/-- A function whose body refers to something is defined. -/
theorem isSome_body_of_mem_references {f : Function} (hname : name ∈ f.references) :
    f.body.isSome := by
  rw [Function.references, Function.instructions] at hname
  cases hbody : f.body with
  | none =>
      rw [hbody] at hname
      cases hname
  | some body => rfl

/-- **Pairs without declarations that nothing refers to.** The owners of pairs are defined. -/
theorem stripDeadPrototypes (h : m.Paired) : m.stripDeadPrototypes.Paired where
  unambiguous := h.unambiguous.stripDeadPrototypes
  resolved := h.resolved.stripDeadPrototypes
  function := fun f hf => h.function f (mem_functions_stripDeadPrototypes.1 hf).1
  global := h.global
  unreferred := fun f hf => h.unreferred f (mem_functions_stripDeadPrototypes.1 hf).1
  owned := fun name hname => by
    obtain ⟨hunreserved, -⟩ := h.exists_madeFor hname (.tail _ (.head _))
    obtain ⟨f, hf, rfl⟩ := List.mem_map.1 (h.owned name hname)
    have hbody := (h.function f hf).isSome_body hunreserved
    exact List.mem_map_of_mem (mem_functions_stripDeadPrototypes.2 ⟨hf, .inl hbody⟩)
  described := fun name hfunction hname => by
    obtain ⟨f, hf, rfl⟩ := List.mem_map.1 hfunction
    have hold : f.name ∈ m.functionNames :=
      List.mem_map_of_mem (mem_functions_stripDeadPrototypes.1 hf).1
    exact h.described f.name hold hname
  used := fun name hname => by
    refine (h.used name hname).imp_right ?_
    rintro ⟨f, hf, hbody⟩
    have hdefined := isSome_body_of_mem_references hbody
    exact ⟨f, mem_functions_stripDeadPrototypes.2 ⟨hf, .inl hdefined⟩, hbody⟩

/-- **Pairs after deletions.** -/
theorem deleteAll (h : m.Paired) (deletions : List Deletion) : (m.deleteAll deletions).Paired := by
  refine deleteAll_keeps (fun m deletion hm => ?_) h deletions
  cases deletion with
  | symbols => exact hm.withoutDead
  | prototypes => exact hm.stripDeadPrototypes

end Module.Paired

/-! ### Lowering -/

namespace Module.Unlowered

variable {m m' : Module} {lowering : Lowering} {name function : String}

/-- A variable that holds the name of a function is a name variable, and the function is there. -/
theorem of_namedFunction? (h : m.Unlowered) (hnamed : m.namedFunction? name = some function) :
    name = Symbol.nameVariable function ∧ function ∈ m.functionNames ∧
      Symbol.Unreserved function := by
  obtain ⟨data, hdata, rfl⟩ := Option.map_eq_some_iff.1 hnamed
  obtain ⟨g, hg, rfl, hbytes⟩ := (bytes?_eq_some_iff h.unambiguous.globals).1 hdata
  obtain ⟨other, hother, hunreserved, rfl⟩ := h.global g hg
  obtain rfl : utf8 other = data := Option.some.inj hbytes
  rw [Text.ofDamagedUtf8_utf8]
  exact ⟨rfl, hother, hunreserved⟩

/-- The profiled functions are there. -/
theorem of_mem_profiledFunctions (h : m.Unlowered) (hfunction : function ∈ m.profiledFunctions) :
    function ∈ m.functionNames ∧ Symbol.Unreserved function := by
  obtain ⟨_, -, hnamed⟩ := List.mem_filterMap.1 hfunction
  exact (h.of_namedFunction? hnamed).2

/-- An instruction that is no increment refers to what the program has. -/
theorem unreserved_of_mem_references (h : m.Unlowered) (hsound : m.Sound) {f : Function}
    (hf : f ∈ m.functions) {i : Instruction} (hi : i ∈ f.instructions)
    (hnone : i.increment? = none) (hname : name ∈ i.references) : Symbol.Unreserved name := by
  cases h.instruction i ⟨f, hf, hi⟩ with
  | ret => cases hname
  | call hcallee => exact List.mem_singleton.1 hname ▸ hcallee
  | increment =>
      have hintrinsic := hsound.wellFormed.intrinsic f hf _ _ hi
      rw [h.eq_incrementIntrinsic hintrinsic, Instruction.increment?, if_pos rfl] at hnone
      cases hnone

/-- Lowering takes name variables away only, and they are released. -/
theorem released_of_loses (h : m.Unlowered) (hsound : m.Sound)
    (hok : m.lower lowering = .ok m') (hlost : m.Loses name) : m.Released name := by
  have hname := hlost.nameVariable
  obtain ⟨hnil, rfl⟩ | ⟨-, profiled, hlowered⟩ := eq_or_lowered_of_lower h.unambiguous.globals hok
  · rw [nameVariables, hnil] at hname
    cases hname
  obtain ⟨function, hnamed⟩ := hlowered.named name hname
  obtain ⟨rfl, -, -⟩ := h.of_namedFunction? hnamed
  refine ⟨fun f hf i hi hnone hname => ?_, fun g hg _ _ hname => ?_, fun other _ heq => ?_⟩
  · exact OwnSymbol.not_unreserved_name (.nameVariable function)
      (h.unreserved_of_mem_references hsound hf hi hnone hname)
  · obtain ⟨other, -, -, rfl⟩ := h.global g hg
    cases hname
  · cases (OwnSymbol.name_inj (a := .nameVariable function) (b := .counters other)).1 heq

/-- Nothing is made of a module under instrumentation yet. -/
theorem not_mem_globalNames_of_made (h : m.Unlowered) (hmade : name ∈ madeNames function) :
    name ∉ m.globalNames := by
  rcases List.mem_pair.1 hmade with rfl | rfl
  · exact h.not_mem_globalNames (.counters function) nofun
  · exact h.not_mem_globalNames (.profileData function) nofun

/-- **What lowering makes**: the counter array and the record of each profiled function. -/
theorem mem_globalNames_lower_iff (h : m.Unlowered) (hok : m.lower lowering = .ok m')
    (hmade : name ∈ madeNames function) :
    name ∈ m'.globalNames ↔ function ∈ m.profiledFunctions := by
  obtain ⟨hnil, rfl⟩ | ⟨-, profiled, hlowered⟩ := eq_or_lowered_of_lower h.unambiguous.globals hok
  · refine iff_of_false (h.not_mem_globalNames_of_made hmade) ?_
    rw [profiledFunctions, nameVariables, hnil]
    exact List.not_mem_nil
  · rw [hlowered.mem_globalNames_iff]
    constructor
    · rintro (rfl | ⟨hold | ⟨other, hother, hname⟩, -⟩)
      · exact absurd hmade (not_mem_madeNames .profileNames (by simp) (by simp) function)
      · exact absurd hold (h.not_mem_globalNames_of_made hmade)
      · exact eq_of_mem_madeNames hname hmade ▸ hother
    · intro hfunction
      refine .inr ⟨.inr ⟨function, hfunction, hmade⟩, fun hname => ?_⟩
      obtain ⟨other, hnamed⟩ := hlowered.named name hname
      obtain ⟨rfl, -, -⟩ := h.of_namedFunction? hnamed
      exact not_mem_madeNames (.nameVariable other) (by simp) (by simp) function hmade

/-- The functions that lowering leaves are those of the program. -/
theorem function_lower (h : m.Unlowered) (hok : m.lower lowering = .ok m') :
    m'.functionNames = m.functionNames ∧ ∀ f ∈ m'.functions, f.OfProgram := by
  obtain ⟨hnil, rfl⟩ | ⟨-, profiled, hlowered⟩ := eq_or_lowered_of_lower h.unambiguous.globals hok
  · exact ⟨rfl, h.function⟩
  · refine ⟨by rw [functionNames_eq, hlowered.signatures_eq, ← functionNames_eq], fun f hf => ?_⟩
    rw [hlowered.functions] at hf
    obtain ⟨old, hold, rfl⟩ := List.mem_map.1 hf
    exact (h.function old hold).congr rfl rfl fun hbody => by rwa [Option.isSome_map]

/-- The variables that lowering leaves. -/
theorem global_lower (h : m.Unlowered) (hok : m.lower lowering = .ok m') :
    m'.globalNames.Nodup ∧ ∀ g ∈ m'.globals, g.OfLowering := by
  have hold : ∀ g ∈ m.globals, g.OfLowering := by
    intro g hg
    obtain ⟨function, -, -, rfl⟩ := h.global g hg
    exact .name function
  obtain ⟨hnil, rfl⟩ | ⟨-, profiled, hlowered⟩ := eq_or_lowered_of_lower h.unambiguous.globals hok
  · exact ⟨h.unambiguous.globals, hold⟩
  · refine ⟨hlowered.nodup, fun g hg => ?_⟩
    rcases hlowered.known g hg with ⟨hg, -⟩ | ⟨function, hfunction, hmade⟩ | ⟨chunks, owner, rfl⟩
    · exact hold g hg
    · exact .made (h.of_mem_profiledFunctions hfunction).2 hmade
    · exact .table chunks owner

/-- No body refers to a record after lowering. -/
theorem not_mem_references_lower (h : m.Unlowered) (hsound : m.Sound)
    (hok : m.lower lowering = .ok m') {f : Function} (hf : f ∈ m'.functions) (name : String) :
    Symbol.profileData name ∉ f.references := by
  have hplain {f : Function} (hf : f ∈ m.functions) {i : Instruction} (hi : i ∈ f.instructions)
      (hnone : i.increment? = none) : Symbol.profileData name ∉ i.references := fun hname =>
    OwnSymbol.not_unreserved_name (.profileData name)
      (h.unreserved_of_mem_references hsound hf hi hnone hname)
  intro hname
  obtain ⟨hnil, rfl⟩ | ⟨-, profiled, hlowered⟩ := eq_or_lowered_of_lower h.unambiguous.globals hok
  · obtain ⟨i, hi, hname⟩ := List.mem_flatMap.1 hname
    refine hplain hf hi (Option.eq_none_iff_forall_ne_some.2 fun increment hsome => ?_) hname
    have hmem := mem_increments_iff_has.2 ⟨i, ⟨f, hf, hi⟩, hsome⟩
    rw [hnil] at hmem
    cases hmem
  · rcases hlowered.exists_body_reference_iff.1 ⟨f, hf, hname⟩ with
      ⟨g, hg, i, hi, hnone, hname⟩ | ⟨function, -, heq⟩
    · exact hplain hg hi hnone hname
    · exact counters_ne_profileData function name heq.symm

/-- **Lowering makes counter arrays and records in pairs.** -/
theorem paired (h : m.Unlowered) (hsound : m.Sound) (hok : m.lower lowering = .ok m') :
    m'.Paired := by
  obtain ⟨hnames, hfunctions⟩ := h.function_lower hok
  obtain ⟨hnodup, hglobals⟩ := h.global_lower hok
  have hdata (name : String) : Symbol.profileData name ∈ m'.globalNames ↔
      name ∈ m.profiledFunctions := h.mem_globalNames_lower_iff hok (.tail _ (.head _))
  have hcounters (name : String) : Symbol.counters name ∈ m'.globalNames ↔
      Symbol.profileData name ∈ m'.globalNames :=
    (h.mem_globalNames_lower_iff hok (.head _)).trans (hdata name).symm
  refine ⟨⟨hnames ▸ h.unambiguous.functions, hnodup, fun name hname hglobal => ?_⟩,
    ((hsound.wellFormed_lower_iff hok).2 fun _ => h.released_of_loses hsound hok).resolved,
    hfunctions, hglobals, fun f hf => h.not_mem_references_lower hsound hok hf,
    fun name hname => ?_, fun name _ => (hcounters name).1,
    fun name hname => .inl ((hcounters name).1 hname)⟩
  · obtain ⟨f, hf, rfl⟩ := List.mem_map.1 hname
    obtain ⟨g, hg, heq⟩ := List.mem_map.1 hglobal
    obtain ⟨symbol, hne, -, hsymbol⟩ := (hglobals g hg).exists_symbol
    exact (hfunctions f hf).name_ne symbol hne (heq.symm.trans hsymbol)
  · rw [hnames]
    exact (h.of_mem_profiledFunctions ((hdata name).1 hname)).1

end Module.Unlowered

/-! ### Runs with coverage -/

namespace Action

variable {s s' : Session} {name passes : String} {operations : List Operation}
  {options : CoverageOptions} {report : RunReport}

/-- Passes that begin with lowering lead from a module under instrumentation to one with pairs. -/
theorem paired_of_effectOf {lowering : Lowering} {rest : List Pass} {m : Module}
    (hoperations : ∀ operation ∈ operations, operation.Instruments)
    (heffect : effectOf (.lowerIncrements lowering :: rest) (construct name operations) = .ok m) :
    m.Paired := by
  obtain ⟨m₁, hlower, rfl⟩ := effectOf_lowerIncrements heffect
  have hpaired := (unlowered_construct name hoperations).paired
    (sound_construct name operations) hlower
  exact hpaired.deleteAll _

/-- **Counter arrays and records after a run with coverage.** A module is built by instrumentation,
with increments anywhere, and run with coverage. A record is then there exactly if both the counter
array and the function are; and a counter array is there exactly if its record is, or some body that
is left updates its counters although the function is gone. The run may compress in any way. -/
theorem pairs_of_run {compress : Bytes → Bytes}
    (hoperations : ∀ operation ∈ operations, operation.Instruments)
    (hs : s.module = construct name operations)
    (hrun : runWith compress .full ⟨passes, some options⟩ s = .ok report s')
    (function : String) :
    (Symbol.profileData function ∈ s'.module.globalNames ↔
      Symbol.counters function ∈ s'.module.globalNames ∧ function ∈ s'.module.functionNames) ∧
    (Symbol.counters function ∈ s'.module.globalNames ↔
      Symbol.profileData function ∈ s'.module.globalNames ∨ s'.module.Strays function) := by
  obtain ⟨pipeline, m, summary, hpipeline, heffect, -, -, hmade⟩ := made_of_runWith hrun
  obtain ⟨parsed, -, rfl⟩ := pipeline_coverage_eq_ok_iff.1 hpipeline
  rw [hs] at heffect
  have hpaired := paired_of_effectOf hoperations heffect
  have hdata : Symbol.profileData function ∈ s'.module.globalNames ↔
      Symbol.profileData function ∈ m.globalNames :=
    hmade.symbol_mem_iff (.profileData function) nofun nofun nofun
  -- The emission declares the entry point of the runtime, which is no function with counters.
  have hfunction (hcounters : Symbol.counters function ∈ m.globalNames) :
      function ∈ s'.module.functionNames ↔ function ∈ m.functionNames := by
    obtain ⟨hunreserved, -⟩ := hpaired.exists_madeFor hcounters (.head _)
    rw [Module.functionNames, hmade.functions_eq]
    exact Module.mem_functionNames_withRuntime.trans
      (or_iff_left (OwnSymbol.ne_name_of_unreserved hunreserved .profileRuntime))
  rw [hdata, hmade.counters_mem_iff, Module.Strays, hmade.exists_body_reference_iff]
  refine ⟨hpaired.profileData_mem_iff.trans (and_congr_right fun hcounters =>
    (hfunction hcounters).symm), fun hcounters => ?_, ?_⟩
  · refine (hpaired.counters_mem_iff.1 hcounters).imp_right ?_
    rintro ⟨hgone, hbody⟩
    exact ⟨mt (hfunction hcounters).1 hgone, hbody⟩
  · rintro (hrecord | ⟨-, hbody⟩)
    · exact hpaired.counters_mem_of_profileData_mem hrecord
    · exact hpaired.counters_mem_of_reference (Module.mem_references_iff.2 (.inl hbody))

/-- An increment of a function that nothing needs, in the body of another one. -/
def strayedProgram : List Operation :=
  [.build (.addFunction "f" .internalLinkage), .build (.addFunction "g" .externalLinkage),
    .prepare "f" 1, .insert "g" [(Symbol.incrementIntrinsic, ⟨"__profn_f", 177675, 1, 0⟩)]]

/-- The function is deleted with its record, but its counter array stays, be the filenames table
compressed or not. -/
theorem pairs_of_run_strayedProgram :
    (∀ operation ∈ strayedProgram, operation.Instruments) ∧ ∀ compressing, ∃ report s',
      runWith Zlib.compress .full ⟨"globaldce", some ⟨"a.c", true, compressing, .elf⟩⟩
        { module := construct "m" strayedProgram } = .ok report s' ∧
      s'.module.Strays "f" ∧ Symbol.counters "f" ∈ s'.module.globalNames ∧
      Symbol.profileData "f" ∉ s'.module.globalNames := by
  have hoperations : ∀ operation ∈ strayedProgram, operation.Instruments := by decide
  have hparse : Pipeline.parse "globaldce" = .ok ⟨[.removeDeadSymbols]⟩ := by cbv
  have hleft : (effectOf [.lowerIncrements ⟨true⟩, .removeDeadSymbols]
      (construct "m" strayedProgram)).map (fun m => (m.globalNames, m.functionNames))
        = .ok (["__profc_f", "__llvm_prf_nm"], ["g", "llvm.instrprof.increment"]) := by
    decide +kernel
  obtain ⟨m, heffect, hnames⟩ := map_eq_ok_iff.1 hleft
  obtain ⟨hglobals, -⟩ := Prod.mk.inj hnames
  have hroom : m.HasRoom := (paired_of_effectOf hoperations heffect).hasRoom
  let s : Session := { module := construct "m" strayedProgram }
  refine ⟨hoperations, fun compressing => ?_⟩
  have hfits := CoverageOptions.fits_short true compressing .elf
  obtain ⟨report, s', summary, hrun, hmade⟩ :=
    exists_runWith_of_room (s := s) hparse hfits heffect hroom
  obtain ⟨-, hstrays⟩ := pairs_of_run (s := s) hoperations rfl hrun "f"
  have hcounters : Symbol.counters "f" ∈ s'.module.globalNames :=
    hmade.counters_mem_iff.2 (hglobals ▸ by decide)
  have hdata : Symbol.profileData "f" ∉ s'.module.globalNames :=
    mt (hmade.symbol_mem_iff (.profileData "f") (by simp) (by simp) (by simp)).1
      (hglobals ▸ by decide)
  exact ⟨report, s', hrun, (hstrays.1 hcounters).resolve_left hdata, hcounters, hdata⟩

end Action

end SourceCoverage
