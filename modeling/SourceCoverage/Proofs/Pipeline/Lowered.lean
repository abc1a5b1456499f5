import SourceCoverage.Proofs.Pipeline.Passage

/-!
# Lowering Any Module

What lowering does to a module of which no history is known, only that its global variables have
distinct names. Increments may then refer to any variable that holds bytes: to one that holds the
name of another function, to two that hold the same name, and even to one whose name is that of a
counter array. If lowering succeeds, the profiled functions are those whose names the variables of
the increments hold; lowering makes two variables for each of them, deletes the variables that hold
the names, and makes the table of names.

## Main results

* `Module.profiles_of_profileAll`: what is made for the profiled functions.
* `Module.lowered_of_lower`: the module after lowering, symbol by symbol.
-/

namespace SourceCoverage.Module

variable {m m₁ m' : Module} {profiled : List ProfiledName} {lowering : Lowering}

/-! ### Name variables -/

/-- The variables that the increments of a module refer to. -/
def nameVariables (m : Module) : List String := m.increments.map (·.nameVariable)

/-- The function whose name a variable holds, if it holds bytes. -/
def namedFunction? (m : Module) (nameVariable : String) : Option String :=
  (m.bytes? nameVariable).map Text.ofDamagedUtf8

/-- Where no two variables share a name, which of them hold bytes. -/
theorem bytes?_eq_some_iff (h : m.globalNames.Nodup) {name : String} {data : Bytes} :
    m.bytes? name = some data
      ↔ ∃ g ∈ m.globals, g.name = name ∧ g.definition.value.bytes? = some data := by
  rw [bytes?, Option.bind_eq_some_iff]
  constructor
  · rintro ⟨g, hglobal, hdata⟩
    obtain ⟨hg, hname⟩ := (global?_eq_some_iff h).1 hglobal
    exact ⟨g, hg, hname, hdata⟩
  · rintro ⟨g, hg, hname, hdata⟩
    exact ⟨g, (global?_eq_some_iff h).2 ⟨hg, hname⟩, hdata⟩

/-! ### What is made for a function -/

/-- The names of the two variables that lowering makes for a function. -/
def madeNames (function : String) : List String :=
  [Symbol.counters function, Symbol.profileData function]

/-- A variable that lowering makes for a function. -/
inductive MadeFor (function : String) : Global → Prop
  | counters (count : UInt32) : MadeFor function ⟨counterArray function count, some function⟩
  | profileData (hash : UInt64) (count : UInt32) :
      MadeFor function ⟨profileDataRecord function hash count, some function⟩

namespace MadeFor

variable {function : String} {g : Global}

/-- It does not hold bytes. -/
theorem bytes?_eq_none (h : MadeFor function g) : g.definition.value.bytes? = none := by
  cases h with
  | counters count => rfl
  | profileData hash count => rfl

/-- It refers to nothing but the counter array of the function. -/
theorem eq_counters (h : MadeFor function g) {name : String}
    (hname : name ∈ g.definition.value.references) : name = Symbol.counters function := by
  cases h with
  | counters count => cases hname
  | profileData hash count => exact List.mem_singleton.1 hname

/-- Only a profile data record refers to something. -/
theorem name_eq_profileData (h : MadeFor function g) {name : String}
    (hname : name ∈ g.definition.value.references) : g.name = Symbol.profileData function := by
  cases h with
  | counters count => cases hname
  | profileData hash count => rfl

/-- It has one of the two names. -/
theorem name_mem (h : MadeFor function g) : g.name ∈ madeNames function := by
  cases h with
  | counters count => exact .head _
  | profileData hash count => exact .tail _ (.head _)

/-- It is owned by the function. -/
theorem owner_eq (h : MadeFor function g) : g.owner = some function := by
  cases h with
  | counters count => rfl
  | profileData hash count => rfl

end MadeFor

/-- The names of the two variables are different. -/
theorem counters_ne_profileData (function function' : String) :
    Symbol.counters function ≠ Symbol.profileData function' := by
  intro heq
  cases OwnSymbol.name_inj (a := .counters function) (b := .profileData function').1 heq

/-- The names of the two variables tell for which function they are made. -/
theorem eq_of_mem_madeNames {name function function' : String} (h : name ∈ madeNames function)
    (h' : name ∈ madeNames function') : function = function' := by
  rcases List.mem_pair.1 h with rfl | rfl <;> rcases List.mem_pair.1 h' with heq | heq
  · cases (OwnSymbol.name_inj (a := .counters function) (b := .counters function')).1 heq
    rfl
  · exact absurd heq (counters_ne_profileData function function')
  · exact absurd heq.symm (counters_ne_profileData function' function)
  · cases (OwnSymbol.name_inj (a := .profileData function) (b := .profileData function')).1 heq
    rfl

/-- A symbol of another kind is not made for a function. -/
theorem not_mem_madeNames (symbol : OwnSymbol) (hcounters : ∀ function, symbol ≠ .counters function)
    (hdata : ∀ function, symbol ≠ .profileData function) (function : String) :
    symbol.name ∉ madeNames function := by
  intro hmem
  rcases List.mem_pair.1 hmem with heq | heq
  · exact hcounters function (OwnSymbol.name_inj.1 heq)
  · exact hdata function (OwnSymbol.name_inj.1 heq)

section Profile

variable {function : String} {use : Increment} {name : String} {g : Global}

/-- The names of the variables after those of a function were made. -/
theorem mem_globalNames_profile : name ∈ (m.profile function use).globalNames
    ↔ name ∈ m.globalNames ∨ name ∈ madeNames function := by
  rw [profile, globalNames_putOwned, mem_globalNames_putVariable, globalNames_putOwned,
    mem_globalNames_putVariable, madeNames, List.mem_pair, or_assoc]
  rfl

/-- Making the variables of a function keeps names distinct. -/
theorem nodup_globalNames_profile (h : m.globalNames.Nodup) :
    (m.profile function use).globalNames.Nodup := by
  rw [profile, globalNames_putOwned]
  refine nodup_globalNames_putVariable ?_
  rw [globalNames_putOwned]
  exact nodup_globalNames_putVariable h

/-- The variables after those of a function were made: the others, and these two. -/
theorem mem_globals_profile (h : m.globalNames.Nodup) : g ∈ (m.profile function use).globals
    ↔ g ∈ m.globals ∧ g.name ∉ madeNames function ∨
      g = ⟨counterArray function use.counterCount, some function⟩ ∨
      g = ⟨profileDataRecord function use.functionHash use.counterCount, some function⟩ := by
  have hfirst :
      (m.putOwned (counterArray function use.counterCount) function).globalNames.Nodup := by
    rw [globalNames_putOwned]
    exact nodup_globalNames_putVariable h
  rw [profile, mem_globals_putOwned hfirst, mem_globals_putOwned h, madeNames, List.mem_pair]
  constructor
  · rintro (⟨⟨hg, hcounters⟩ | rfl, hdata⟩ | rfl)
    · exact .inl ⟨hg, not_or.2 ⟨hcounters, hdata⟩⟩
    · exact .inr (.inl rfl)
    · exact .inr (.inr rfl)
  · rintro (⟨hg, hmade⟩ | rfl | rfl)
    · exact .inl ⟨.inl ⟨hg, (not_or.1 hmade).1⟩, (not_or.1 hmade).2⟩
    · exact .inl ⟨.inr rfl, counters_ne_profileData function function⟩
    · exact .inr rfl

/-- Through a filter of names that drops those of the two variables, the variables of a module look
the same after these were made. -/
theorem filter_globals_profile {q : String → Bool}
    (h : ∀ made ∈ madeNames function, q made = false) :
    (m.profile function use).globals.filter (q ·.name) = m.globals.filter (q ·.name) := by
  have hcounters := h _ (.head _)
  have hdata := h _ (.tail _ (.head _))
  rw [profile, filter_globals_putOwned hdata, filter_globals_putOwned hcounters]

/-- Another name than those of the two variables is that of the same variable as before. -/
theorem global?_profile_of_not_mem (h : name ∉ madeNames function) :
    (m.profile function use).global? name = m.global? name :=
  global?_of_filter (filter_globals_profile (q := (decide <| · = name)) fun _ hmade =>
    decide_eq_false (ne_of_mem_of_not_mem hmade h))

end Profile

/-! ### The first step -/

/-- One module is another one with the variables that are made for the profiled functions. -/
structure Profiles (m : Module) (profiled : List ProfiledName) (m' : Module) : Prop where
  functions : m'.functions = m.functions
  nodup : m'.globalNames.Nodup
  named : ∀ p ∈ profiled, m.namedFunction? p.nameVariable = some p.function
  mem_globalNames_iff : ∀ name, name ∈ m'.globalNames
    ↔ name ∈ m.globalNames ∨ ∃ p ∈ profiled, name ∈ madeNames p.function
  known : ∀ g ∈ m'.globals, (g ∈ m.globals ∧ ∀ p ∈ profiled, g.name ∉ madeNames p.function) ∨
    ∃ p ∈ profiled, MadeFor p.function g
  kept : ∀ g ∈ m.globals, (∀ p ∈ profiled, g.name ∉ madeNames p.function) → g ∈ m'.globals

namespace Profiles

/-- A module with nothing made. -/
theorem nil (h : m.globalNames.Nodup) : Profiles m [] m where
  functions := rfl
  nodup := h
  named := nofun
  mem_globalNames_iff := fun name => by simp
  known := fun g hg => .inl ⟨hg, nofun⟩
  kept := fun g hg _ => hg

/-- What holds bytes after something was made held them before. -/
theorem namedFunction?_eq (h : Profiles m profiled m') (hnodup : m.globalNames.Nodup)
    {nameVariable function : String} (hnamed : m'.namedFunction? nameVariable = some function) :
    m.namedFunction? nameVariable = some function := by
  obtain ⟨data, hdata, rfl⟩ := Option.map_eq_some_iff.1 hnamed
  obtain ⟨g, hg, hname, hbytes⟩ := (bytes?_eq_some_iff h.nodup).1 hdata
  -- Nothing that is made holds bytes, so that the variable was there before.
  rcases h.known g hg with ⟨hg, -⟩ | ⟨p, -, hmade⟩
  · rw [namedFunction?, (bytes?_eq_some_iff hnodup).2 ⟨g, hg, hname, hbytes⟩]
    rfl
  · rw [hmade.bytes?_eq_none] at hbytes
    cases hbytes

/-- What is made for one function. -/
theorem single (h : m.globalNames.Nodup) {function : String} {use : Increment}
    (hnamed : m.namedFunction? use.nameVariable = some function) :
    Profiles m [⟨use.nameVariable, function⟩] (m.profile function use) where
  functions := by rw [profile, functions_putOwned, functions_putOwned]
  nodup := nodup_globalNames_profile h
  named := List.forall_mem_singleton.2 hnamed
  mem_globalNames_iff := fun name => by simp [mem_globalNames_profile]
  known := by
    intro g hg
    rcases (mem_globals_profile h).1 hg with ⟨hg, hmade⟩ | rfl | rfl
    · exact .inl ⟨hg, List.forall_mem_singleton.2 hmade⟩
    · exact .inr ⟨_, .head _, .counters _⟩
    · exact .inr ⟨_, .head _, .profileData _ _⟩
  kept := fun g hg hmade => (mem_globals_profile h).2 (.inl ⟨hg, hmade _ (.head _)⟩)

/-- What is made in two steps. -/
theorem append (hnodup : m.globalNames.Nodup) {others : List ProfiledName}
    (h : Profiles m profiled m₁) (h' : Profiles m₁ others m') :
    Profiles m (profiled ++ others) m' where
  functions := h'.functions.trans h.functions
  nodup := h'.nodup
  named := by
    intro p hp
    rcases List.mem_append.1 hp with hp | hp
    · exact h.named p hp
    · exact h.namedFunction?_eq hnodup (h'.named p hp)
  mem_globalNames_iff := by
    intro name
    rw [h'.mem_globalNames_iff, h.mem_globalNames_iff, or_assoc]
    simp only [List.mem_append, or_and_right, exists_or]
  known := by
    intro g hg
    rcases h'.known g hg with ⟨hg, hothers⟩ | ⟨p, hp, hmade⟩
    · rcases h.known g hg with ⟨hg, hprofiled⟩ | ⟨p, hp, hmade⟩
      · exact .inl ⟨hg, List.forall_mem_append.2 ⟨hprofiled, hothers⟩⟩
      · exact .inr ⟨p, List.mem_append_left _ hp, hmade⟩
    · exact .inr ⟨p, List.mem_append_right _ hp, hmade⟩
  kept := by
    intro g hg hmade
    obtain ⟨hprofiled, hothers⟩ := List.forall_mem_append.1 hmade
    exact h'.kept g (h.kept g hg hprofiled) hothers

end Profiles

/-- **The first step of lowering**, where it succeeds, makes what it makes for the functions whose
names the variables of the uses hold. -/
theorem profiles_of_profileAll (h : m.globalNames.Nodup) {uses : List Increment}
    (hok : m.profileAll uses = .ok (m', profiled)) : Profiles m profiled m' := by
  induction uses generalizing m profiled with
  | nil =>
      obtain ⟨rfl, rfl⟩ := Prod.mk.inj (Except.ok.inj hok)
      exact .nil h
  | cons use uses ih =>
      obtain ⟨data, others, hbytes, hrest, rfl⟩ := profileAll_cons_eq_ok_iff.1 hok
      have hnamed : m.namedFunction? use.nameVariable = some (Text.ofDamagedUtf8 data) := by
        rw [namedFunction?, hbytes]
        rfl
      have hfirst := Profiles.single h hnamed
      exact hfirst.append h (ih hfirst.nodup hrest)

/-! ### The last step -/

/-- Folding the names keeps the names of global variables distinct. -/
theorem nodup_globalNames_foldNames (h : m.globalNames.Nodup) :
    (m.foldNames profiled).globalNames.Nodup :=
  nodup_globalNames_putVariable (nodup_globalNames_foldl_removeGlobal h)

/-- Through a filter of names that drops those of some variables, the variables of a module look the
same after these were deleted. -/
theorem filter_globals_foldl_removeGlobal {q : String → Bool}
    (h : ∀ p ∈ profiled, q p.nameVariable = false) :
    (profiled.foldl (fun m p => m.removeGlobal p.nameVariable) m).globals.filter (q ·.name)
      = m.globals.filter (q ·.name) := by
  induction profiled generalizing m with
  | nil => rfl
  | cons p profiled ih =>
      obtain ⟨hp, hrest⟩ := List.forall_mem_cons.1 h
      rw [List.foldl_cons, ih hrest, removeGlobal, List.filter_filter]
      refine List.filter_congr fun g _ => ?_
      by_cases hname : g.name = p.nameVariable
      · simp [hname, hp]
      · simp [hname]

/-- Through one that drops the names of the name variables and of the table of names, they look the
same after the names were folded. -/
theorem filter_globals_foldNames {q : String → Bool} (htable : q Symbol.profileNames = false)
    (h : ∀ p ∈ profiled, q p.nameVariable = false) :
    (m.foldNames profiled).globals.filter (q ·.name) = m.globals.filter (q ·.name) :=
  (filter_globals_putVariable htable).trans (filter_globals_foldl_removeGlobal h)

/-- The variables after the names were folded: those that are neither a name variable nor the old
table of names, and the new table. -/
theorem mem_globals_foldNames (h : m.globalNames.Nodup) (profiled : List ProfiledName) :
    ∃ chunks owner, ∀ g, g ∈ (m.foldNames profiled).globals
      ↔ (g ∈ m.globals ∧ ∀ p ∈ profiled, g.name ≠ p.nameVariable) ∧ g.name ≠ Symbol.profileNames ∨
        g = ⟨namesVariable chunks, owner⟩ := by
  let removed := profiled.foldl (fun m name => m.removeGlobal name.nameVariable) m
  refine ⟨(m.bytes? Symbol.profileNames).getD [] ++ namesChunk profiled,
    removed.ownerOf Symbol.profileNames, fun g => ?_⟩
  rw [foldNames, mem_globals_putVariable (nodup_globalNames_foldl_removeGlobal h),
    mem_globals_foldl_removeGlobal]
  rfl

/-- The names of the variables after the names were folded. -/
theorem mem_globalNames_foldNames (h : m.globalNames.Nodup) {name : String} :
    name ∈ (m.foldNames profiled).globalNames ↔ name = Symbol.profileNames ∨
      name ∈ m.globalNames ∧ ∀ p ∈ profiled, name ≠ p.nameVariable := by
  obtain ⟨chunks, owner, hmem⟩ := mem_globals_foldNames h profiled
  rw [globalNames, List.mem_map]
  constructor
  · rintro ⟨g, hg, rfl⟩
    rcases (hmem g).1 hg with ⟨⟨hg, hkept⟩, -⟩ | rfl
    · exact .inr ⟨List.mem_map_of_mem hg, hkept⟩
    · exact .inl rfl
  · intro hname
    by_cases htable : name = Symbol.profileNames
    · exact ⟨_, (hmem _).2 (.inr rfl), htable.symm⟩
    · obtain ⟨hold, hkept⟩ := hname.resolve_left htable
      obtain ⟨g, hg, rfl⟩ := List.mem_map.1 hold
      exact ⟨g, (hmem g).2 (.inl ⟨⟨hg, hkept⟩, htable⟩), rfl⟩

/-! ### The pass -/

/-- The functions that are profiled: those whose names the variables of the increments hold. -/
def profiledFunctions (m : Module) : List String := m.nameVariables.filterMap m.namedFunction?

/-- One module is another one with its increments lowered. The profiled names are the variables
that increments refer to, each with the function whose name it holds. -/
structure Lowered (m : Module) (lowering : Lowering) (profiled : List ProfiledName)
    (m' : Module) : Prop where
  mem_profiled_iff : ∀ p, p ∈ profiled
    ↔ p.nameVariable ∈ m.nameVariables ∧ m.namedFunction? p.nameVariable = some p.function
  named : ∀ name ∈ m.nameVariables, ∃ function, m.namedFunction? name = some function
  functions : m'.functions = m.functions.map fun f =>
    { f with body := f.body.map (·.map (·.lower lowering profiled)) }
  nodup : m'.globalNames.Nodup
  mem_globalNames_iff : ∀ name, name ∈ m'.globalNames ↔ name = Symbol.profileNames ∨
    (name ∈ m.globalNames ∨ ∃ function ∈ m.profiledFunctions, name ∈ madeNames function) ∧
      name ∉ m.nameVariables
  known : ∀ g ∈ m'.globals, g ∈ m.globals ∧ g.name ≠ Symbol.profileNames ∧
      (∀ function ∈ m.profiledFunctions, g.name ∉ madeNames function) ∨
    (∃ function ∈ m.profiledFunctions, MadeFor function g) ∨
    ∃ chunks owner, g = ⟨namesVariable chunks, owner⟩
  kept : ∀ g ∈ m.globals, g.name ∉ m.nameVariables → g.name ≠ Symbol.profileNames →
    (∀ function ∈ m.profiledFunctions, g.name ∉ madeNames function) → g ∈ m'.globals

/-- The variables that the first uses refer to are those that all increments refer to. -/
theorem mem_map_firstUses_iff {increments : List Increment} {name : String} :
    name ∈ (firstUses increments).map (·.nameVariable)
      ↔ name ∈ increments.map (·.nameVariable) := by
  have hfirst := firstUses_spec increments
  rw [List.mem_map, List.mem_map]
  constructor
  · rintro ⟨use, huse, rfl⟩
    exact ⟨use, List.mem_of_find?_eq_some (hfirst.first use huse), rfl⟩
  · rintro ⟨i, hi, rfl⟩
    exact hfirst.complete i hi

namespace Profiles

variable (h : Profiles m profiled m₁)
  (hnames : ∀ name, name ∈ m.nameVariables ↔ ∃ p ∈ profiled, p.nameVariable = name)
include h hnames

/-- The profiled names are the variables of increments, each with the function that it names. -/
theorem mem_profiled_iff {p : ProfiledName} : p ∈ profiled
    ↔ p.nameVariable ∈ m.nameVariables ∧ m.namedFunction? p.nameVariable = some p.function := by
  constructor
  · intro hp
    exact ⟨(hnames _).2 ⟨p, hp, rfl⟩, h.named p hp⟩
  · rintro ⟨hp, hnamed⟩
    obtain ⟨nameVariable, function⟩ := p
    obtain ⟨⟨_, function'⟩, hp', rfl⟩ := (hnames _).1 hp
    obtain rfl : function' = function := Option.some.inj ((h.named _ hp').symm.trans hnamed)
    exact hp'

/-- The profiled functions are those of the profiled names. -/
theorem mem_profiledFunctions_iff {function : String} : function ∈ m.profiledFunctions
    ↔ ∃ p ∈ profiled, p.function = function := by
  rw [profiledFunctions, List.mem_filterMap]
  constructor
  · rintro ⟨name, hname, hnamed⟩
    exact ⟨⟨name, function⟩, (h.mem_profiled_iff hnames).2 ⟨hname, hnamed⟩, rfl⟩
  · rintro ⟨p, hp, rfl⟩
    exact ⟨p.nameVariable, (h.mem_profiled_iff hnames).1 hp⟩

/-- What is so of all profiled functions is so of those of the profiled names. -/
theorem forall_profiledFunctions_iff {P : String → Prop} :
    (∀ function ∈ m.profiledFunctions, P function) ↔ ∀ p ∈ profiled, P p.function := by
  simp only [h.mem_profiledFunctions_iff hnames, forall_exists_index, and_imp,
    forall_apply_eq_imp_iff₂]

/-- The names of variables before any of them is deleted. -/
theorem mem_globalNames_iff_profiledFunctions (name : String) : name ∈ m₁.globalNames
    ↔ name ∈ m.globalNames ∨ ∃ function ∈ m.profiledFunctions, name ∈ madeNames function := by
  rw [h.mem_globalNames_iff]
  refine or_congr_right ?_
  simp only [h.mem_profiledFunctions_iff hnames]
  constructor
  · rintro ⟨p, hp, hmade⟩
    exact ⟨p.function, ⟨p, hp, rfl⟩, hmade⟩
  · rintro ⟨_, ⟨p, hp, rfl⟩, hmade⟩
    exact ⟨p, hp, hmade⟩

end Profiles

/-- **The module after lowering**, where lowering finds something to do and succeeds. -/
theorem lowered_of_lower (h : m.globalNames.Nodup) (hok : m.lower lowering = .ok m')
    (hincrements : m.increments ≠ []) : ∃ profiled, Lowered m lowering profiled m' := by
  rw [lower, if_neg hincrements] at hok
  obtain ⟨⟨m₁, profiled⟩, hall, rfl⟩ := map_eq_ok_iff.1 hok
  have hprofiles := profiles_of_profileAll h hall
  have hnames : ∀ name, name ∈ m.nameVariables ↔ ∃ p ∈ profiled, p.nameVariable = name := by
    intro name
    rw [nameVariables, ← mem_map_firstUses_iff, ← nameVariables_profileAll hall, List.mem_map]
  have hdeleted : ∀ name, (∀ p ∈ profiled, name ≠ p.nameVariable) ↔ name ∉ m.nameVariables := by
    intro name
    simp only [hnames, not_exists, not_and, ne_eq, eq_comm]
  have hnodup : (m₁.lowerBodies lowering profiled).globalNames.Nodup := hprofiles.nodup
  obtain ⟨chunks, owner, hglobals⟩ := mem_globals_foldNames hnodup profiled
  refine ⟨profiled, fun _ => hprofiles.mem_profiled_iff hnames, ?_, ?_,
    nodup_globalNames_foldNames hnodup, ?_, ?_, ?_⟩
  · intro name hname
    obtain ⟨p, hp, rfl⟩ := (hnames name).1 hname
    exact ⟨p.function, hprofiles.named p hp⟩
  · rw [functions_foldNames, lowerBodies, hprofiles.functions]
  · intro name
    rw [mem_globalNames_foldNames hnodup, hdeleted]
    exact or_congr_right
      (and_congr_left' (hprofiles.mem_globalNames_iff_profiledFunctions hnames name))
  · intro g hg
    rcases (hglobals g).1 hg with ⟨⟨hg, -⟩, htable⟩ | rfl
    · rcases hprofiles.known g hg with ⟨hg, hmade⟩ | ⟨p, hp, hmade⟩
      · exact .inl ⟨hg, htable, (hprofiles.forall_profiledFunctions_iff hnames).2 hmade⟩
      · have hfunction := (hprofiles.mem_profiledFunctions_iff hnames).2 ⟨p, hp, rfl⟩
        exact .inr (.inl ⟨p.function, hfunction, hmade⟩)
    · exact .inr (.inr ⟨chunks, owner, rfl⟩)
  · intro g hg hname htable hmade
    have hkept := hprofiles.kept g hg ((hprofiles.forall_profiledFunctions_iff hnames).1 hmade)
    exact (hglobals g).2 (.inl ⟨⟨hkept, (hdeleted _).2 hname⟩, htable⟩)

/-- Lowering that succeeds either finds nothing to do and leaves the module as it is, or lowers. -/
theorem eq_or_lowered_of_lower (h : m.globalNames.Nodup) (hok : m.lower lowering = .ok m') :
    m.increments = [] ∧ m' = m ∨
      m.increments ≠ [] ∧ ∃ profiled, Lowered m lowering profiled m' := by
  by_cases hincrements : m.increments = []
  · rw [lower, if_pos hincrements] at hok
    exact .inl ⟨hincrements, (Except.ok.inj hok).symm⟩
  · exact .inr ⟨hincrements, lowered_of_lower h hok hincrements⟩

end SourceCoverage.Module
