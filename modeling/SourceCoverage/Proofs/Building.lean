import SourceCoverage.Proofs.Instrumentation
import SourceCoverage.Proofs.Tasks

/-!
# Building Programs

A program is built step by step: functions are defined and declared, calls added, functions
instrumented. A step that fails leaves what it had done until then, and the program goes on. As
long as a program gives unreserved names only, each step leads from a module that follows a history
to one that follows the history with what the step did.

## Main results

* `BuildStep.follows`: one step in the history.
* `follows_build`: a sequence of steps leads to a module that follows some history.
* `BuildStep.succeeds_instrument_iff`: when an instrumentation succeeds.
-/

namespace SourceCoverage

namespace BuildStep

variable {s : Session} {history : History}

/-- The names that a step gives. -/
def names : BuildStep → List String
  | addFunction name _ => [name]
  | declareFunction name => [name]
  | addCall caller callee => [caller, callee]
  | instrument function _ => [function]

/-- Whether a step gives unreserved names only. -/
def Unreserved (step : BuildStep) : Prop := ∀ name ∈ step.names, Symbol.Unreserved name

/-- Names are looked at one by one. -/
instance (step : BuildStep) : Decidable step.Unreserved :=
  inferInstanceAs (Decidable (∀ name ∈ step.names, Symbol.Unreserved name))

/-- Whether a step is an instrumentation. -/
def isInstrument : BuildStep → Bool
  | instrument _ _ => true
  | _ => false

/-! ### One step -/

/-- The module after a declaration. -/
theorem module_perform_declareFunction (name : String) (s : Session) :
    ((declareFunction name).perform s).module
      = (s.module.declareFunction name).toOption.getD s.module := by
  rw [perform_eq, action, Action.attempt]
  cases s.module.declareFunction name <;> rfl

/-- The module after a call was added. -/
theorem module_perform_addCall (caller callee : String) (s : Session) :
    ((addCall caller callee).perform s).module
      = (s.module.addCall caller callee).toOption.getD s.module := by
  rw [perform_eq, action, Action.attempt]
  cases s.module.addCall caller callee <;> rfl

/-- The module after an instrumentation. -/
theorem module_perform_instrument (h : s.module.Follows history) (function : String)
    (count : UInt32) :
    ((instrument function count).perform s).module = s.module.instrumented function count := by
  obtain ⟨hok, herror⟩ := Action.instrument_spec h function count
  by_cases hdefines : s.module.Defines function
  · obtain ⟨i, log, hrun⟩ := hok hdefines
    rw [perform_eq, action, bind_of_ok hrun]
    rfl
  · obtain ⟨e, log, hrun⟩ := herror hdefines
    rw [perform_eq, action, bind_of_error hrun]
    rfl

/-- **An instrumentation succeeds exactly if the function is defined.** -/
theorem succeeds_instrument_iff (h : s.module.Follows history) {function : String}
    {count : UInt32} : (instrument function count).Succeeds s ↔ s.module.Defines function := by
  obtain ⟨hok, herror⟩ := Action.instrument_spec h function count
  rw [succeeds_iff]
  constructor
  · rintro ⟨s', hrun⟩
    refine Classical.byContradiction fun hnot => ?_
    obtain ⟨e, log, hfail⟩ := herror hnot
    rw [action, bind_of_error hfail] at hrun
    cases hrun
  · intro hdefines
    obtain ⟨i, log, hrun⟩ := hok hdefines
    refine ⟨{ s with module := s.module.instrumented function count, log }, ?_⟩
    rw [action, bind_of_ok hrun]
    rfl

/-- The history after a step on a module. -/
def recordIn (m : Module) (history : History) : BuildStep → History
  | addFunction _ _ => history
  | declareFunction _ => history
  | addCall caller callee =>
    match m.addCall caller callee with
    | .ok _ => Function.update history caller ((history caller).addCall callee)
    | .error _ => history
  | instrument function count =>
    if m.Defines function ∧ count ≠ 0 then
      Function.update history function ((history function).instrument count)
    else history

/-- The count with which a step instruments the function of a name, if it does. -/
def counts (m : Module) (name : String) : BuildStep → List UInt32
  | instrument function count =>
    if function = name ∧ m.Defines function ∧ count ≠ 0 then [count] else []
  | _ => []

/-- A count is that of an instrumentation of the function. -/
theorem eq_of_mem_counts {m : Module} {name : String} {step : BuildStep} {count : UInt32}
    (h : count ∈ step.counts m name) : step = .instrument name count := by
  cases step with
  | instrument function own =>
      rw [counts] at h
      split at h
      · next hall => rw [hall.1, List.mem_singleton.1 h]
      · cases h
  | _ => cases h

/-- Where a new shape has the same of something as the old one, so has the history. -/
theorem congr_update {α : Type} (g : Shape → α) (function : String) (shape : Shape)
    (h : g shape = g (history function)) (name : String) :
    g (Function.update history function shape name) = g (history name) := by
  by_cases hname : name = function
  · rw [hname, Function.update_self, h]
  · rw [Function.update_of_ne hname]

/-- What is pending after a step. -/
theorem pending_recordIn {m : Module} {step : BuildStep} {name : String} :
    (step.recordIn m history name).pending = step.counts m name ++ (history name).pending := by
  cases step with
  | addFunction _ _ => rfl
  | declareFunction _ => rfl
  | addCall caller callee =>
      rw [recordIn]
      cases m.addCall caller callee with
      | error _ => rfl
      | ok _ => exact congr_update (·.pending) caller ((history caller).addCall callee) rfl name
  | instrument function count =>
      rw [recordIn, counts]
      by_cases hboth : m.Defines function ∧ count ≠ 0
      · rw [if_pos hboth]
        by_cases hname : function = name
        · rw [if_pos ⟨hname, hboth⟩, hname, Function.update_self]
          rfl
        · rw [if_neg (fun h => hname h.1), Function.update_of_ne (Ne.symm hname)]
          rfl
      · rw [if_neg hboth, if_neg (fun h => hboth h.2)]
        rfl

/-- Building lowers nothing. -/
theorem lowered_recordIn {m : Module} {step : BuildStep} {name : String} :
    (step.recordIn m history name).lowered = (history name).lowered := by
  cases step with
  | addFunction _ _ => rfl
  | declareFunction _ => rfl
  | addCall caller callee =>
      rw [recordIn]
      cases m.addCall caller callee with
      | error _ => rfl
      | ok _ => exact congr_update (·.lowered) caller ((history caller).addCall callee) rfl name
  | instrument function count =>
      rw [recordIn]
      split
      · exact congr_update (·.lowered) function ((history function).instrument count) rfl name
      · rfl

/-- **One step in the history.** -/
theorem follows (h : s.module.Follows history) {step : BuildStep} (hstep : step.Unreserved) :
    (step.perform s).module.Follows (step.recordIn s.module history) := by
  cases step with
  | addFunction name linkage => exact h.addFunction (hstep name (.head _)) linkage
  | declareFunction name =>
      rw [module_perform_declareFunction]
      cases hdeclare : s.module.declareFunction name with
      | error e => exact h
      | ok m => exact h.declareFunction (hstep name (.head _)) hdeclare
  | addCall caller callee =>
      rw [module_perform_addCall, recordIn]
      cases hcall : s.module.addCall caller callee with
      | error e => exact h
      | ok m => exact h.addCall (hstep callee (.tail _ (.head _))) hcall
  | instrument function count =>
      rw [module_perform_instrument h, recordIn]
      split
      · next hboth => exact h.instrumented hboth.1 hboth.2
      · next hnot => exact h.instrumented_of_not hnot

end BuildStep

/-! ### Sequences of steps -/

/-- A program of one instrumented function. -/
def singleProgram : List BuildStep := [.addFunction "f" .externalLinkage, .instrument "f" 1]

/-- A program of a function that calls a second one, and of a third one that nothing needs. All of
them are instrumented. -/
def prunedProgram : List BuildStep :=
  [.addFunction "main" .externalLinkage, .addFunction "helper" .internalLinkage,
    .addFunction "unused" .internalLinkage, .instrument "main" 1, .instrument "helper" 2,
    .instrument "unused" 1, .addCall "main" "helper"]

/-- A sequence of steps that give unreserved names leads to a module that follows a history. -/
theorem follows_build {s : Session} {history : History} (h : s.module.Follows history)
    {steps : List BuildStep} (hsteps : ∀ step ∈ steps, step.Unreserved) :
    ∃ history', (build steps s).module.Follows history' := by
  refine performAll_keeps (P := fun s => ∃ history, s.module.Follows history)
    (List.forall_mem_map.2 fun step hstep s hs => ?_) ⟨history, h⟩
  obtain ⟨history, hfollows⟩ := hs
  exact ⟨_, BuildStep.follows hfollows (hsteps step hstep)⟩

end SourceCoverage
