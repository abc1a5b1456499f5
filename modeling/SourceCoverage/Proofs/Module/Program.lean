import SourceCoverage.Proofs.Building

/-!
# The Program in a Module

What a program under instrumentation is without its instrumentation is seen in its module: leave
out the two functions that instrumentation declares, all increments and counter updates in the
bodies, and all global variables. A module *carries* the program that is left. Building steps do to
the program what they do to the module, and instrumentation does nothing to it.

## Main results

* `Module.Follows.carried`: the program in a module that follows a history follows one itself.
* `Module.Carries.perform`, `Module.Carries.perform_instrument`: building steps on a module and on
  the program that it carries.
-/

namespace SourceCoverage

/-- Filtering images is filtering what they are the images of. -/
theorem filter_map_of_eq {α β : Type} {f : α → β} {p : β → Bool} {q : α → Bool}
    (h : ∀ a, p (f a) = q a) (l : List α) : (l.map f).filter p = (l.filter q).map f := by
  rw [List.filter_map]
  exact congrArg (List.map f) (List.filter_congr fun a _ => h a)

/-! ### The program's own -/

/-- Whether an instruction is the program's own: a call that counts nothing, or a return. -/
def Instruction.isProgram : Instruction → Bool
  | call _ none => true
  | ret => true
  | _ => false

/-- Whether a function is the program's own, and not one that instrumentation declares. -/
def Function.isProgram (f : Function) : Bool :=
  f.name ≠ Symbol.incrementIntrinsic ∧ f.name ≠ Symbol.profileRuntime

/-- The function with the program's own instructions. -/
def Function.program (f : Function) : Function :=
  { f with body := f.body.map (·.filter (·.isProgram)) }

/-- The program's own among functions, with the program's own instructions. -/
def programOf (functions : List Function) : List Function :=
  (functions.filter (·.isProgram)).map (·.program)

/-- Whether a module is an instrumented form of another one that is not instrumented at all. -/
structure Module.Carries (m program : Module) : Prop where
  functions : program.functions = programOf m.functions
  globals : program.globals = []

/-- The history of a program without its instrumentation. -/
def History.program (history : History) : History :=
  fun name => { callees := (history name).callees }

/-- Functions of unreserved names are the program's own. -/
theorem Function.isProgram_of_unreserved {f : Function} (h : Symbol.Unreserved f.name) :
    f.isProgram :=
  decide_eq_true ⟨OwnSymbol.ne_name_of_unreserved h .incrementIntrinsic,
    OwnSymbol.ne_name_of_unreserved h .profileRuntime⟩

namespace Shape

variable {function : String} {shape : Shape}

/-- **The program's own instructions of a body** are the calls and the return. -/
theorem filter_isProgram_body : (shape.body function).filter (·.isProgram)
    = ({ callees := shape.callees } : Shape).body function := by
  have hincrements : (shape.pending.flatMap (increments function)).filter (·.isProgram) = [] := by
    rw [List.filter_eq_nil_iff]
    intro i hi
    obtain ⟨count, -, hi⟩ := List.mem_flatMap.1 hi
    obtain ⟨index, -, rfl⟩ := mem_increments_iff.1 hi
    exact Bool.false_ne_true
  have hupdates : (shape.lowered.flatMap (updates function)).filter (·.isProgram) = [] := by
    rw [List.filter_eq_nil_iff]
    intro i hi
    obtain ⟨entry, -, hi⟩ := List.mem_flatMap.1 hi
    obtain ⟨index, -, rfl⟩ := mem_updates_iff.1 hi
    cases hatomic : entry.2 <;> simp [update, Instruction.isProgram]
  have hcalls : (shape.callees.map (Instruction.call · none)).filter (·.isProgram)
      = shape.callees.map (.call · none) := by
    rw [List.filter_eq_self]
    intro i hi
    obtain ⟨callee, -, rfl⟩ := List.mem_map.1 hi
    rfl
  rw [body, List.filter_append, List.filter_append, List.filter_append, hincrements, hupdates,
    hcalls]
  simp [body, Instruction.isProgram]

/-- The calls of a valid shape make a valid shape. -/
theorem Valid.program (h : shape.Valid) : ({ callees := shape.callees } : Shape).Valid :=
  ⟨nofun, nofun, h.callees⟩

end Shape

/-! ### The program in a module that follows a history -/

/-- A function of the program that follows a history. -/
theorem Function.Follows.program {history : History} {f : Function} (h : f.Follows history)
    (hprogram : f.isProgram) : f.program.Follows history.program ∧ Symbol.Unreserved f.name := by
  cases h with
  | declaration hunreserved => exact ⟨.declaration hunreserved, hunreserved⟩
  | @definition name linkage hunreserved hvalid =>
      refine ⟨?_, hunreserved⟩
      rw [Function.program, Option.map_some, Shape.filter_isProgram_body]
      exact .definition hunreserved hvalid.program
  | increment => exact absurd rfl (of_decide_eq_true hprogram).1
  | runtime => exact absurd rfl (of_decide_eq_true hprogram).2

namespace Module

variable {m m₀ : Module} {history : History}

/-- The functions of a program that is carried. -/
theorem Carries.mem_functions (h : m.Carries m₀) {f₀ : Function} :
    f₀ ∈ m₀.functions ↔ ∃ f ∈ m.functions, f.isProgram ∧ f.program = f₀ := by
  rw [h.functions, programOf, List.mem_map]
  simp only [List.mem_filter, and_assoc]

/-- The names of a program that is carried are those of the functions that are its own. -/
theorem Carries.functionNames_eq (h : m.Carries m₀) :
    m₀.functionNames = (m.functions.filter (·.isProgram)).map (·.name) := by
  rw [functionNames, h.functions, programOf, List.map_map]
  rfl

/-- A function of an unreserved name is in the module exactly if it is in the program. -/
theorem Carries.mem_functionNames (h : m.Carries m₀) {name : String}
    (hname : Symbol.Unreserved name) : name ∈ m₀.functionNames ↔ name ∈ m.functionNames := by
  rw [h.functionNames_eq, functionNames, List.mem_map, List.mem_map]
  constructor
  · rintro ⟨f, hf, hfname⟩
    exact ⟨f, (List.mem_filter.1 hf).1, hfname⟩
  · rintro ⟨f, hf, rfl⟩
    exact ⟨f, List.mem_filter.2 ⟨hf, Function.isProgram_of_unreserved hname⟩, rfl⟩

/-- A function of an unreserved name is defined in the module exactly if it is in the program. -/
theorem Carries.defines_iff (h : m.Carries m₀) {name : String} (hname : Symbol.Unreserved name) :
    m₀.Defines name ↔ m.Defines name := by
  constructor
  · rintro ⟨f₀, hf₀, hfname, hbody⟩
    obtain ⟨f, hf, -, rfl⟩ := h.mem_functions.1 hf₀
    exact ⟨f, hf, hfname, by simpa [Function.program] using hbody⟩
  · rintro ⟨f, hf, rfl, hbody⟩
    exact ⟨f.program, h.mem_functions.2 ⟨f, hf, Function.isProgram_of_unreserved hname, rfl⟩, rfl,
      by simpa [Function.program] using hbody⟩

/-- **The program that a module carries follows a history** if the module does. -/
theorem Follows.carried (h : m.Follows history) (hcarries : m.Carries m₀) :
    m₀.Follows history.program := by
  refine of_history ?_ ?_ ?_ ?_ ?_ ?_ ?_ ?_ ?_
  · rw [hcarries.functionNames_eq]
    exact h.functionNames.sublist (List.filter_sublist.map _)
  · rw [Module.globalNames, hcarries.globals]
    exact List.nodup_nil
  · intro f₀ hf₀
    obtain ⟨f, hf, hprogram, rfl⟩ := hcarries.mem_functions.1 hf₀
    exact ((h.function f hf).program hprogram).1
  · intro name hundefined
    have hempty : history name = .empty := by
      by_cases hdefines : m.Defines name
      · obtain ⟨f, hf, rfl, hbody⟩ := hdefines
        obtain ⟨body, hbody'⟩ := Option.isSome_iff_exists.1 hbody
        have hunreserved := (h.body_eq hf hbody').2.1
        exact absurd ((hcarries.defines_iff hunreserved).2 ⟨f, hf, rfl, hbody⟩) hundefined
      · exact h.undefined name hdefines
    rw [History.program, hempty]
    rfl
  · intro g hg
    rw [hcarries.globals] at hg
    cases hg
  · exact fun name hpending => absurd rfl hpending
  · exact fun name hlowered => absurd rfl hlowered
  · intro name callee hcallee
    have hunreserved := (h.valid name).callees callee hcallee
    exact (hcarries.mem_functionNames hunreserved).2 (h.callee_mem hcallee)
  · intro huser
    rw [Module.globalNames, hcarries.globals] at huser
    cases huser

/-! ### Changes of a module and of its program -/

namespace Carries

/-- Only functions matter for the program that is carried. -/
theorem congr (h : m.Carries m₀) {m' : Module}
    (hfunctions : programOf m'.functions = programOf m.functions) : m'.Carries m₀ :=
  ⟨h.functions.trans hfunctions.symm, h.globals⟩

/-- A change of a function of the module that changes the program's function likewise. -/
theorem modifyFunction (h : m.Carries m₀) {name : String} {change change₀ : Function → Function}
    (hname : ∀ f, (change f).name = f.name)
    (hcommutes : ∀ f, (change f).program = change₀ f.program) :
    (m.modifyFunction name change).Carries (m₀.modifyFunction name change₀) := by
  refine ⟨?_, h.globals⟩
  have hkeep : ∀ f : Function, (if f.name = name then change f else f).isProgram = f.isProgram := by
    intro f
    split
    · rw [Function.isProgram, Function.isProgram, hname]
    · rfl
  rw [Module.modifyFunction, Module.modifyFunction, h.functions, programOf, programOf,
    filter_map_of_eq hkeep, List.map_map, List.map_map]
  refine List.map_congr_left fun f _ => ?_
  by_cases hf : f.name = name
  · have hprogram : f.program.name = name := hf
    rw [Function.comp_apply, Function.comp_apply, if_pos hf, if_pos hprogram, hcommutes]
  · have hprogram : f.program.name ≠ name := hf
    rw [Function.comp_apply, Function.comp_apply, if_neg hf, if_neg hprogram]

/-- A function of the program's own is added to the program as well. -/
theorem append (h : m.Carries m₀) {f : Function} (hprogram : f.isProgram) :
    ({ m with functions := m.functions ++ [f] }).Carries
      { m₀ with functions := m₀.functions ++ [f.program] } := by
  refine ⟨?_, h.globals⟩
  rw [h.functions]
  simp [programOf, hprogram]

/-- A function that is not the program's own is not added to it. -/
theorem append_own (h : m.Carries m₀) {f : Function} (hprogram : ¬f.isProgram) :
    ({ m with functions := m.functions ++ [f] }).Carries m₀ :=
  h.congr (by simp [programOf, hprogram])

end Carries

/-- When a call can be added, and what it does. -/
theorem toOption_addCall (h : m.functionNames.Nodup) (caller callee : String) :
    (m.addCall caller callee).toOption =
      if callee ∈ m.functionNames ∧ m.Defines caller then
        some (m.modifyFunction caller fun f =>
          { f with body := f.body.map (insertBeforeReturn (.call callee none)) })
      else none := by
  by_cases hboth : callee ∈ m.functionNames ∧ m.Defines caller
  · rw [if_pos hboth, (addCall_eq_ok_iff_defines h).2 ⟨hboth.1, hboth.2, rfl⟩]
    rfl
  · rw [if_neg hboth]
    cases hcall : m.addCall caller callee with
    | ok m' =>
        obtain ⟨hcallee, hcaller, -⟩ := (addCall_eq_ok_iff_defines h).1 hcall
        exact absurd ⟨hcallee, hcaller⟩ hboth
    | error e => rfl

namespace Carries

/-- Defining a function in the module defines it in the program. -/
theorem addFunction (h : m.Carries m₀) (hfollows : m.Follows history) {name : String}
    (hname : Symbol.Unreserved name) (linkage : Linkage) :
    (m.addFunction name linkage).Carries (m₀.addFunction name linkage) := by
  have hhas : m₀.hasFunction name = m.hasFunction name :=
    Bool.eq_iff_iff.2 ((hasFunction_iff.trans (h.mem_functionNames hname)).trans
      hasFunction_iff.symm)
  rw [Module.addFunction, Module.addFunction, hhas]
  split
  · rw [updateFirst_eq_modifyFunction hfollows.functionNames,
      updateFirst_eq_modifyFunction (hfollows.carried h).functionNames]
    refine h.modifyFunction (fun _ => rfl) fun f => ?_
    obtain ⟨own, _, body, isIntrinsic⟩ := f
    cases body <;> rfl
  · exact h.append (f := ⟨name, linkage, some [.ret], false⟩)
      (Function.isProgram_of_unreserved hname)

/-- Declaring a function in the module declares it in the program. -/
theorem declareFunction (h : m.Carries m₀) (hfollows : m.Follows history) {name : String}
    (hname : Symbol.Unreserved name) :
    ((m.declareFunction name).toOption.getD m).Carries
      ((m₀.declareFunction name).toOption.getD m₀) := by
  have hhas : m₀.hasFunction name = m.hasFunction name :=
    Bool.eq_iff_iff.2 ((hasFunction_iff.trans (h.mem_functionNames hname)).trans
      hasFunction_iff.symm)
  have hglobal : ¬(m.global? name).isSome := fun hsome =>
    hfollows.not_mem_globalNames_of_unreserved hname (isSome_global?_iff.1 hsome)
  have hglobal₀ : ¬(m₀.global? name).isSome := fun hsome =>
    (hfollows.carried h).not_mem_globalNames_of_unreserved hname (isSome_global?_iff.1 hsome)
  rw [Module.declareFunction, Module.declareFunction, if_neg hglobal, if_neg hglobal₀, hhas]
  split
  · exact h
  · exact h.append (f := ⟨name, .externalLinkage, none, false⟩)
      (Function.isProgram_of_unreserved hname)

/-- A call goes in front of the return among the program's own instructions as well. -/
theorem filter_insertBeforeReturn (callee : String) (body : List Instruction) :
    (insertBeforeReturn (.call callee none) body).filter (·.isProgram)
      = insertBeforeReturn (.call callee none) (body.filter (·.isProgram)) := by
  induction body with
  | nil => rfl
  | cons i body ih =>
      cases i with
      | ret => rfl
      | call own increment =>
          cases increment with
          | none => exact congrArg (.call own none :: ·) ih
          | some increment => exact ih
      | atomicAdd counters index => exact ih
      | loadAddStore counters index => exact ih

/-- Adding a call in the module adds it in the program. -/
theorem addCall (h : m.Carries m₀) (hfollows : m.Follows history) {caller callee : String}
    (hcaller : Symbol.Unreserved caller) (hcallee : Symbol.Unreserved callee) :
    ((m.addCall caller callee).toOption.getD m).Carries
      ((m₀.addCall caller callee).toOption.getD m₀) := by
  rw [toOption_addCall hfollows.functionNames, toOption_addCall (hfollows.carried h).functionNames]
  simp only [h.mem_functionNames hcallee, h.defines_iff hcaller]
  split
  · refine h.modifyFunction (fun _ => rfl) fun f => ?_
    obtain ⟨own, linkage, body, isIntrinsic⟩ := f
    cases body with
    | none => rfl
    | some body => simp [Function.program, filter_insertBeforeReturn]
  · exact h

/-- **Instrumenting a function does nothing to the program.** -/
theorem instrumented (h : m.Carries m₀) (function : String) (count : UInt32) :
    (m.instrumented function count).Carries m₀ := by
  rw [Module.instrumented]
  split
  · have hintrinsic : m.withIntrinsic.Carries m₀ := by
      rw [Module.withIntrinsic]
      split
      · exact h
      · exact h.append_own (by decide)
    have hprepared : (m.prepared function).Carries m₀ :=
      hintrinsic.congr (by rw [prepared, functions_putVariable])
    have hidle : m₀.modifyFunction function (fun f => f) = m₀ :=
      modifyFunction_eq_self fun _ _ _ => rfl
    rw [← hidle]
    refine hprepared.modifyFunction (fun _ => rfl) fun f => ?_
    obtain ⟨own, linkage, body, isIntrinsic⟩ := f
    cases body with
    | none => rfl
    | some body =>
        have hincrements : (Shape.increments function count).filter (·.isProgram) = [] := by
          rw [List.filter_eq_nil_iff]
          intro i hi
          obtain ⟨index, -, rfl⟩ := Shape.mem_increments_iff.1 hi
          exact Bool.false_ne_true
        simp [Function.program, List.filter_append, hincrements]
  · exact h

/-! ### Building steps -/

variable {s s₀ : Session}

/-- **A step on the module and on the program that it carries.** -/
theorem perform (h : s.module.Carries s₀.module) (hfollows : s.module.Follows history)
    {step : BuildStep} (hstep : step.Unreserved) (hplain : step.isInstrument = false) :
    (step.perform s).module.Carries (step.perform s₀).module := by
  cases step with
  | addFunction name linkage => exact h.addFunction hfollows (hstep name (.head _)) linkage
  | declareFunction name =>
      rw [BuildStep.module_perform_declareFunction, BuildStep.module_perform_declareFunction]
      exact h.declareFunction hfollows (hstep name (.head _))
  | addCall caller callee =>
      rw [BuildStep.module_perform_addCall, BuildStep.module_perform_addCall]
      exact h.addCall hfollows (hstep caller (.head _)) (hstep callee (.tail _ (.head _)))
  | instrument function count => cases hplain

/-- **An instrumentation is not seen in the program.** -/
theorem perform_instrument (h : s.module.Carries s₀.module) (hfollows : s.module.Follows history)
    {step : BuildStep} (hinstrument : step.isInstrument) :
    (step.perform s).module.Carries s₀.module := by
  cases step with
  | instrument function count =>
      rw [BuildStep.module_perform_instrument hfollows]
      exact h.instrumented function count
  | _ => cases hinstrument

/-- **A sequence of steps, and the same without its instrumentations.** -/
theorem build (h : s.module.Carries s₀.module) (hfollows : s.module.Follows history)
    {steps : List BuildStep} (hsteps : ∀ step ∈ steps, step.Unreserved) :
    (build steps s).module.Carries (build (steps.filter (!·.isInstrument)) s₀).module := by
  induction steps generalizing s s₀ history with
  | nil => exact h
  | cons step steps ih =>
      obtain ⟨hstep, hrest⟩ := List.forall_mem_cons.1 hsteps
      have hnext := BuildStep.follows hfollows hstep
      cases hinstrument : step.isInstrument with
      | true =>
          rw [List.filter_cons_of_neg (by simp [hinstrument])]
          exact ih (h.perform_instrument hfollows hinstrument) hnext hrest
      | false =>
          rw [List.filter_cons_of_pos (by simp [hinstrument])]
          exact ih (h.perform hfollows hstep hinstrument) hnext hrest

end Carries

end Module

end SourceCoverage
