import SourceCoverage.Proofs.Module.Unambiguity

/-!
# Modules Under Instrumentation

While a program is instrumented, increments may be inserted anywhere: those of one function in the
body of another one, as they stand there once calls are inlined. As long as functions are defined
and not just declared, names are unreserved and no variables are defined besides, the module stays
simple all the same. Its only intrinsic is the increment, and its global variables hold the names of
functions that are there.

## Main results

* `Module.Unlowered.edit`: an edit of instrumentation leads from such a module to another one.
* `unlowered_construct`: so every module that instrumentation constructs is one.
-/

namespace SourceCoverage

/-! ### Programs under instrumentation -/

/-- A function of a program under instrumentation: one of the program's own, which is defined, or
the increment intrinsic. -/
inductive Function.OfProgram (f : Function) : Prop
  | defined : Symbol.Unreserved f.name → f.body.isSome → f.isIntrinsic = false → OfProgram f
  | increment : f.name = Symbol.incrementIntrinsic → f.isIntrinsic = true → OfProgram f

/-- An instruction of a program whose increments are not lowered yet. -/
inductive Instruction.Unlowered : Instruction → Prop
  | ret : Unlowered .ret
  | call {callee : String} : Symbol.Unreserved callee → Unlowered (.call callee none)
  | increment {intrinsic : String} {increment : Increment} :
      Unlowered (.call intrinsic (some increment))

namespace Function.OfProgram

variable {f : Function}

/-- A function of a program is neither a counter array nor any other global variable. -/
theorem name_ne (h : f.OfProgram) (symbol : OwnSymbol) (hne : symbol ≠ .incrementIntrinsic) :
    f.name ≠ symbol.name := by
  cases h with
  | defined hname _ _ => exact OwnSymbol.ne_name_of_unreserved hname symbol
  | increment hname _ => exact fun heq => hne (OwnSymbol.name_inj.1 (heq.symm.trans hname))

/-- A function with an unreserved name is defined. -/
theorem isSome_body (h : f.OfProgram) (hname : Symbol.Unreserved f.name) : f.body.isSome := by
  cases h with
  | defined _ hbody _ => exact hbody
  | increment heq _ => exact absurd heq (OwnSymbol.ne_name_of_unreserved hname .incrementIntrinsic)

/-- A function is as it was as far as its name, its being an intrinsic and its being defined go. -/
theorem congr {f' : Function} (h : f.OfProgram) (hname : f'.name = f.name)
    (hintrinsic : f'.isIntrinsic = f.isIntrinsic) (hbody : f.body.isSome → f'.body.isSome) :
    f'.OfProgram := by
  cases h with
  | defined hunreserved hsome hnot =>
      exact .defined (hname ▸ hunreserved) (hbody hsome) (hintrinsic.trans hnot)
  | increment heq his => exact .increment (hname.trans heq) (hintrinsic.trans his)

end Function.OfProgram

/-- A module under instrumentation, of which nothing is lowered yet: its global variables hold the
names of functions that are there. -/
structure Module.Unlowered (m : Module) : Prop where
  unambiguous : m.Unambiguous
  function : ∀ f ∈ m.functions, f.OfProgram
  instruction : ∀ i, m.Has i → i.Unlowered
  global : ∀ g ∈ m.globals, ∃ function ∈ m.functionNames, Symbol.Unreserved function ∧
    g = ⟨nameVariable function, none⟩

/-- Whether an edit is one of instrumentation, of a module with functions of the given names. -/
inductive Edit.Instruments (names : List String) : Edit → Prop
  | addFunction {name : String} {linkage : Linkage} : Symbol.Unreserved name →
      Instruments names (.addFunction name linkage)
  | addCall {caller callee : String} : Symbol.Unreserved callee →
      Instruments names (.addCall caller callee)
  | declareIncrement : Instruments names (.declareIntrinsic Symbol.incrementIntrinsic)
  | defineName {function : String} : function ∈ names → Symbol.Unreserved function →
      Instruments names (.defineVariable (nameVariable function))
  | insertIncrement {cursor : BodyCursor} {intrinsic : String} {increment : Increment} :
      Instruments names (.insertIncrement cursor intrinsic increment)

/-- Whether an operation is one of a program under instrumentation: functions are defined, calls
added, functions prepared, and increments inserted anywhere. -/
def Operation.Instruments : Operation → Prop
  | build (.declareFunction _) => False
  | build step => step.Unreserved
  | prepare function _ => Symbol.Unreserved function
  | insert _ _ => True
  | declareIntrinsic _ => False
  | defineVariable _ => False

/-- Names are looked at one by one. -/
instance (operation : Operation) : Decidable operation.Instruments :=
  match operation with
  | .build (.declareFunction _) => .isFalse id
  | .build (.addFunction name linkage) =>
    inferInstanceAs (Decidable (BuildStep.addFunction name linkage).Unreserved)
  | .build (.addCall caller callee) =>
    inferInstanceAs (Decidable (BuildStep.addCall caller callee).Unreserved)
  | .build (.instrument function count) =>
    inferInstanceAs (Decidable (BuildStep.instrument function count).Unreserved)
  | .prepare function _ => inferInstanceAs (Decidable (Symbol.Unreserved function))
  | .insert _ _ => .isTrue trivial
  | .declareIntrinsic _ => .isFalse id
  | .defineVariable _ => .isFalse id

/-- More functions do no harm. -/
theorem Edit.Instruments.mono {e : Edit} {names names' : List String} (h : e.Instruments names)
    (hnames : names ⊆ names') : e.Instruments names' := by
  cases h with
  | addFunction hname => exact .addFunction hname
  | addCall hcallee => exact .addCall hcallee
  | declareIncrement => exact .declareIncrement
  | defineName hfunction hname => exact .defineName (hnames hfunction) hname
  | insertIncrement => exact .insertIncrement

/-- The edits of an operation of instrumentation are such edits. -/
theorem Operation.Makes.instruments {m : Module} {operation : Operation} {e : Edit}
    (h : operation.Makes m e) (hoperation : operation.Instruments) :
    e.Instruments m.functionNames := by
  have hpreparation {function : String} (hfunction : function ∈ m.functionNames)
      (hname : Symbol.Unreserved function) (he : e ∈ preparation function) :
      e.Instruments m.functionNames := by
    rcases List.mem_pair.1 he with rfl | rfl
    · exact .declareIncrement
    · exact .defineName hfunction hname
  cases h with
  | addFunction => exact .addFunction (hoperation _ (.head _))
  | declareFunction => exact hoperation.elim
  | addCall => exact .addCall (hoperation _ (.tail _ (.head _)))
  | instrument hfunction he => exact hpreparation hfunction (hoperation _ (.head _)) he
  | count => exact .insertIncrement
  | declareIntrinsic => exact hoperation.elim
  | defineVariable => exact hoperation.elim
  | prepare hfunction he => exact hpreparation hfunction hoperation he
  | insert _ => exact .insertIncrement

namespace Module.Unlowered

variable {m m' : Module}

/-- The global variables have names of name variables. -/
theorem exists_nameVariable (h : m.Unlowered) {name : String} (hname : name ∈ m.globalNames) :
    ∃ function, name = Symbol.nameVariable function := by
  obtain ⟨g, hg, rfl⟩ := List.mem_map.1 hname
  obtain ⟨function, -, -, rfl⟩ := h.global g hg
  exact ⟨function, rfl⟩

/-- No other symbol of instrumentation is a global variable. -/
theorem not_mem_globalNames (h : m.Unlowered) (symbol : OwnSymbol)
    (hne : ∀ function, symbol ≠ .nameVariable function) : symbol.name ∉ m.globalNames := by
  intro hmem
  obtain ⟨function, heq⟩ := h.exists_nameVariable hmem
  exact hne function (OwnSymbol.name_inj.1 heq)

/-- The only intrinsic is the increment. -/
theorem eq_incrementIntrinsic (h : m.Unlowered) {name : String} (hname : m.hasIntrinsic name) :
    name = Symbol.incrementIntrinsic := by
  obtain ⟨f, hf, rfl, hintrinsic⟩ := (hasIntrinsic_iff h.unambiguous.functions).1 hname
  cases h.function f hf with
  | defined _ _ hnot => rw [hnot] at hintrinsic; cases hintrinsic
  | increment heq _ => exact heq

/-- An edit of instrumentation does not clash with a symbol that is there. -/
theorem not_clashes (h : m.Unlowered) {e : Edit} (he : e.Instruments m.functionNames) :
    ¬e.Clashes m := by
  intro hclash
  cases he with
  | addFunction hname =>
      obtain ⟨function, rfl⟩ := h.exists_nameVariable hclash
      exact OwnSymbol.not_unreserved_name (.nameVariable function) hname
  | addCall _ => exact hclash
  | declareIncrement =>
      obtain ⟨-, hnot, hfunction | hglobal⟩ := hclash
      · obtain ⟨f, hf, hname⟩ := List.mem_map.1 hfunction
        cases h.function f hf with
        | defined hunreserved _ _ =>
            exact OwnSymbol.ne_name_of_unreserved hunreserved .incrementIntrinsic hname
        | increment _ hintrinsic =>
            exact hnot ((hasIntrinsic_iff h.unambiguous.functions).2 ⟨f, hf, hname, hintrinsic⟩)
      · exact h.not_mem_globalNames .incrementIntrinsic nofun hglobal
  | defineName _ _ => exact hclash
  | insertIncrement => exact hclash

/-- The functions after an edit of instrumentation are those of a program. -/
theorem ofProgram_edit (h : m.Unlowered) {e : Edit} (he : e.Instruments m.functionNames)
    (hok : e.apply m = .ok m') {f : Function} (hf : f ∈ m'.functions) : f.OfProgram := by
  cases Edit.outcome_of_apply hok with
  | same => exact h.function f hf
  | introduced hintroduces =>
      rcases List.mem_append.1 hf with hf | hf
      · exact h.function f hf
      · obtain rfl := List.mem_singleton.1 hf
        cases hintroduces with
        | addFunction _ =>
            cases he with
            | addFunction hname => exact .defined hname rfl rfl
        | declareFunction _ _ => cases he
        | declareIntrinsic _ _ =>
            cases he with
            | declareIncrement => exact .increment rfl rfl
  | written hsame _ =>
      rcases mem_of_mem_updateFirst hf with hf | ⟨old, hold, rfl⟩
      · exact h.function f hf
      · obtain ⟨hname, hintrinsic, hbody⟩ := hsame old
        exact (h.function old (List.mem_of_find?_eq_some hold)).congr hname hintrinsic hbody
  | defined _ =>
      rw [functions_putVariable] at hf
      exact h.function f hf
  | put => cases he

/-- The global variables after an edit of instrumentation hold the names of functions. -/
theorem global_edit (h : m.Unlowered) {e : Edit} (he : e.Instruments m.functionNames)
    (hok : e.apply m = .ok m') {g : Global} (hg : g ∈ m'.globals) :
    ∃ function ∈ m'.functionNames, Symbol.Unreserved function ∧
      g = ⟨nameVariable function, none⟩ := by
  have hnames := e.functionNames_subset hok
  have hkept (hg : g ∈ m.globals) : ∃ function ∈ m'.functionNames, Symbol.Unreserved function ∧
      g = ⟨nameVariable function, none⟩ := by
    obtain ⟨function, hfunction, hname, rfl⟩ := h.global g hg
    exact ⟨function, hnames hfunction, hname, rfl⟩
  rcases e.globals_or_put hok with hsame | ⟨v, rfl, -, rfl⟩ | ⟨v, owner, rfl, -⟩
  · exact hkept (hsame ▸ hg)
  · cases he with
    | @defineName function hfunction hname =>
        rcases (mem_globals_putVariable h.unambiguous.globals).1 hg with ⟨hg, -⟩ | rfl
        · exact hkept hg
        · have hnone : m.ownerOf (nameVariable function).name = none := by
            refine ownerOf_eq_none_of_forall h.unambiguous.globals fun g hg _ => ?_
            obtain ⟨_, -, -, rfl⟩ := h.global g hg
            rfl
          exact ⟨function, hnames hfunction, hname, by rw [hnone]⟩
  · cases he

/-- **An edit of instrumentation** leads to a module under instrumentation. -/
theorem edit (h : m.Unlowered) {e : Edit} (he : e.Instruments m.functionNames)
    (hok : e.apply m = .ok m') : m'.Unlowered where
  unambiguous := (Edit.unambiguous_iff h.unambiguous hok).2 (h.not_clashes he)
  function := fun _ hf => h.ofProgram_edit he hok hf
  instruction := fun i hi => by
    rcases e.has_of_apply hok hi with hold | hwrites
    · exact h.instruction i hold
    · cases hwrites with
      | ret => exact .ret
      | call =>
          cases he with
          | addCall hcallee => exact .call hcallee
      | increment => exact .increment
  global := fun _ hg => h.global_edit he hok hg

end Module.Unlowered

/-- **Every module that instrumentation constructs** is a module under instrumentation. -/
theorem unlowered_construct (name : String) {operations : List Operation}
    (h : ∀ operation ∈ operations, operation.Instruments) :
    (construct name operations).Unlowered := by
  refine performAll_keeps (P := (·.module.Unlowered)) ?_
    ⟨⟨List.nodup_nil, List.nodup_nil, nofun⟩, nofun, nofun, nofun⟩
  rw [List.forall_mem_map]
  intro operation hoperation s hs
  refine (operation.perform_keeps (P := fun m =>
    m.Unlowered ∧ s.module.functionNames ⊆ m.functionNames) ?_ ⟨hs, List.Subset.refl _⟩).1
  rintro e he m m' hok ⟨hm, hnames⟩
  have hinstruments := (he.instruments (h operation hoperation)).mono hnames
  exact ⟨hm.edit hinstruments hok, List.Subset.trans hnames (e.functionNames_subset hok)⟩

end SourceCoverage
