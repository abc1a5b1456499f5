import SourceCoverage.Proofs.Room

/-!
# Emitting Again

What is emitted is itself admitted: none of it is a counter array, and none of it has the name of a
function. So when the module is emitted again, the same records are made of the same counter arrays,
each is put where it stands already, and the module stays as it is. Only the list of what was
skipped differs, which now names the records and the reference to the runtime, too.

## Main results

* `EmissionSummary.Made.admits`: a module with coverage data admits it again.
* `EmissionSummary.Made.module_again`: a second emission leaves the module as it is.
* `Action.emitWith_again`: emission is idempotent.
-/

namespace SourceCoverage

/-! ### What is emitted is admitted -/

/-- Where the counter arrays look the same through the filter of their names, the same functions
have one. -/
theorem Module.counted_of_filter {m m' : Module}
    (h : m'.globals.filter (Symbol.countersOwner? ·.name |>.isSome)
      = m.globals.filter (Symbol.countersOwner? ·.name |>.isSome)) : m'.counted = m.counted := by
  have hfiltered : ∀ m : Module, m.counted
      = (m.globals.filter (Symbol.countersOwner? ·.name |>.isSome)).filterMap
          (Symbol.countersOwner? ·.name) := by
    intro m
    rw [counted, globalNames, List.filterMap_map, List.filterMap_filter]
    refine List.filterMap_congr fun g _ => ?_
    cases howner : Symbol.countersOwner? g.name <;> simp [howner]
  rw [hfiltered, hfiltered, h]

namespace EmissionSummary.Made

variable {options : CoverageOptions} {encoded : EncodedFilenames} {m m' : Module}
  {summary : EmissionSummary}

/-- An emission adds no counter array. -/
theorem counted_eq (h : summary.Made options encoded m m') : m'.counted = m.counted := by
  have hother (symbol : OwnSymbol) (hsymbol : ∀ function, symbol ≠ .counters function) :
      (Symbol.countersOwner? symbol.name).isSome = false := by
    rw [symbol.countersOwner?_eq_none hsymbol, Option.isSome_none]
  exact Module.counted_of_filter (h.filter_globals (q := (Symbol.countersOwner? · |>.isSome))
    (hother .coverageMapping nofun) (hother .profileRuntimeUser nofun)
    fun function _ => hother (.coverageRecord function) nofun)

/-- The names of the functions after an emission. -/
theorem functionNames_eq (h : summary.Made options encoded m m') :
    m'.functionNames = m.withRuntime.functionNames := by
  rw [Module.functionNames, h.functions_eq, Module.functionNames]

/-- No symbol but the entry point of the runtime becomes a function. -/
theorem mem_functionNames_iff (h : summary.Made options encoded m m') (symbol : OwnSymbol)
    (hne : symbol ≠ .profileRuntime) : symbol.name ∈ m'.functionNames ↔
      symbol.name ∈ m.functionNames := by
  rw [h.functionNames_eq, Module.mem_functionNames_withRuntime]
  exact or_iff_left fun heq => hne (OwnSymbol.name_inj (b := .profileRuntime).1 heq)

/-- **A module with coverage data admits it again.** -/
theorem admits (h : summary.Made options encoded m m') (hm : m.AdmitsCoverage) :
    m'.AdmitsCoverage where
  mapping := (not_congr (h.mem_functionNames_iff .coverageMapping nofun)).2 hm.mapping
  record := by
    intro function hfunction
    rw [h.counted_eq] at hfunction
    exact (not_congr (h.mem_functionNames_iff (.coverageRecord function) nofun)).2
      (hm.record function hfunction)
  user := (not_congr (h.mem_functionNames_iff .profileRuntimeUser nofun)).2 hm.user
  runtime :=
    (not_congr (h.symbol_mem_iff .profileRuntime nofun (fun _ => nofun) nofun)).2 hm.runtime

/-! ### A second emission -/

variable {again : EmissionSummary} {m'' : Module}

/-- A second emission tells of the same header and table, and of the same records. -/
theorem eq_again (h : summary.Made options encoded m m')
    (hagain : again.Made options encoded m' m'') :
    again.header = summary.header ∧ again.filenames = summary.filenames ∧
      again.filenamesHash = summary.filenamesHash ∧ again.records = summary.records := by
  refine ⟨hagain.header.trans h.header.symm, hagain.filenames.trans h.filenames.symm,
    hagain.filenamesHash.trans h.filenamesHash.symm, ?_⟩
  rw [hagain.records, h.counted_eq, h.records]

/-- The variables of an emission are found as they were put into the module, the reference to the
runtime included. -/
theorem definition?_variables (h : summary.Made options encoded m m') {v : Variable}
    (hv : v ∈ summary.variables options) : m'.definition? v.name = some v := by
  rcases List.mem_cons.1 hv with rfl | hv
  · have hne : Symbol.coverageMapping ≠ Symbol.profileRuntimeUser := by decide
    exact h.definition?_eq (List.mem_cons_self ..) hne
  · obtain ⟨r, hr, rfl⟩ := List.mem_map.1 hv
    have hfound := h.definition?_record hr
    obtain ⟨function, -, rfl⟩ := h.exists_counted hr
    exact hfound

/-- **A second emission leaves the module as it is**: the header and the records are put where they
are, the entry point of the runtime is declared already, and the reference to it comes last. -/
theorem module_again (h : summary.Made options encoded m m')
    (hagain : again.Made options encoded m' m'') : m'' = m' := by
  have hvariables : again.variables options = summary.variables options := by
    obtain ⟨hheader, hfilenames, -, hrecords⟩ := h.eq_again hagain
    rw [EmissionSummary.variables, hheader, hfilenames, hrecords, EmissionSummary.variables]
  have hput : m'.putAll (again.variables options) = m' :=
    Module.putAll_of_definition? fun v hv => h.definition?_variables (hvariables ▸ hv)
  have hdeclared : m'.withRuntime = m' := by
    rw [Module.withRuntime, if_pos (Module.hasFunction_iff.2 ?_)]
    rw [h.functionNames_eq]
    exact Module.mem_functionNames_withRuntime.2 (.inr rfl)
  have huser : m'.definition? runtimeUserVariable.name = some runtimeUserVariable := by
    rw [h.module]
    exact Module.definition?_putVariable_self _ _
  rw [hagain.module, hput, hdeclared, Module.putVariable_of_definition? huser]

end EmissionSummary.Made

/-- The names there are with a header, where there is one. -/
theorem Module.namesWithHeader_of_mem {m : Module} (h : Symbol.coverageMapping ∈ m.globalNames) :
    m.namesWithHeader = m.globalNames := if_pos h

namespace Action

variable {s s' : Session} {options : CoverageOptions}

/-- **Emission is idempotent.** After an emission that succeeded, another one with the same options
succeeds from any session on the same module. It leaves the module exactly as it is, and tells the
same, but that what it skipped is all global variables that are no counter arrays, those of the
first emission among them. Compression is any function. -/
theorem emitWith_again {compress : Bytes → Bytes} {summary : EmissionSummary}
    (h : emitWith compress options s = .ok summary s') :
    ∀ t : Session, t.module = s'.module → ∃ t', emitWith compress options t = .ok { summary with
      skipped := s'.module.globalNames.filter (Symbol.countersOwner? · |>.isNone) } t' ∧
      t'.module = s'.module := by
  intro t ht
  have hmade := made_of_emitWith h
  have hadmits : s.module.AdmitsCoverage := (runs_emitWith_iff.1 ⟨summary, s', h⟩).2
  obtain ⟨again, t', hagain⟩ : (emitWith compress options).Runs t :=
    runs_emitWith_iff.2 ⟨hmade.fits, ht ▸ hmade.admits hadmits⟩
  obtain ⟨hmade', hskipped⟩ := made_and_skipped_of_emitWith hagain
  rw [ht] at hmade' hskipped
  have hheader : Symbol.coverageMapping ∈ s'.module.globalNames :=
    hmade.mem_globalNames_iff.2 (.inr (.inl rfl))
  rw [Module.namesWithHeader_of_mem hheader] at hskipped
  have hsummary : again = { summary with
      skipped := s'.module.globalNames.filter (Symbol.countersOwner? · |>.isNone) } := by
    obtain ⟨hheader', hfilenames, hhash, hrecords⟩ := hmade.eq_again hmade'
    cases again
    rw [EmissionSummary.mk.injEq]
    exact ⟨hheader', hfilenames, hhash, hrecords, hskipped⟩
  exact ⟨t', hsummary ▸ hagain, hmade.module_again hmade'⟩

/-- A module with a counter array that belongs to its function, and with a variable that refers to
it. -/
def countedModule : Module where
  name := "m"
  functions := [⟨"main", .externalLinkage, some [.atomicAdd "__profc_main" 0, .ret], false⟩]
  globals := [⟨{ name := "__profc_main", value := .counters 1 }, some "main"⟩,
    ⟨{ name := "table", value := .address "__profc_main" }, none⟩]

/-- Its function has a record after the first emission and after the second. -/
theorem emitWith_again_countedModule : ∃ summary s',
    emitWith Zlib.compress ⟨"a.c", true, false, .elf⟩ { module := countedModule }
      = .ok summary s' ∧
    summary.records.map (·.function) = ["main"] ∧
    ∃ s'', emitWith Zlib.compress ⟨"a.c", true, false, .elf⟩ s' = .ok { summary with
      skipped := s'.module.globalNames.filter (Symbol.countersOwner? · |>.isNone) } s'' ∧
      s''.module = s'.module := by
  have hfits : CoverageOptions.Fits Zlib.compress ⟨"a.c", true, false, .elf⟩ :=
    CoverageOptions.fits_short true false .elf
  have hadmits : countedModule.AdmitsCoverage := ⟨by decide, by decide, by decide, by decide⟩
  have hruns : (emitWith Zlib.compress ⟨"a.c", true, false, .elf⟩).Runs
      { module := countedModule } := runs_emitWith_iff.2 ⟨hfits, hadmits⟩
  obtain ⟨summary, s', hemit⟩ := hruns
  refine ⟨summary, s', hemit, ?_, emitWith_again hemit s' rfl⟩
  rw [(made_of_emitWith hemit).records]
  rfl

end Action

end SourceCoverage
