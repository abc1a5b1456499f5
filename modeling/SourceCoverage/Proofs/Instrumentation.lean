import SourceCoverage.Proofs.Module.Construction

/-!
# The Effect of an Instrumentation

To instrument a function, the increment intrinsic is declared, the variable that holds the name
of the function is defined, and the increments are inserted in front of the body. On a module
that follows a history nothing of this can fail, except that there may be no function, or no body
to insert into; the first two steps are then taken all the same if the function is declared.

## Main results

* `Action.insertCounters_spec`: increments inserted one after the other come to stand in order.
* `Action.instrument_spec`: what becomes of the module, and when the operation succeeds.
* `Module.Follows.instrumented`: the instrumentation in the history.
-/

namespace SourceCoverage

/-- Inserting behind a first part. -/
theorem insertIdx_length_append {α : Type} (front back : List α) (a : α) :
    (front ++ back).insertIdx front.length a = front ++ a :: back := by
  induction front with
  | nil => rfl
  | cons b front ih =>
      rw [List.cons_append, List.length_cons, List.insertIdx_succ_cons, ih, List.cons_append]

namespace Module

variable {m : Module} {history : History} {function : String} {count : UInt32}

/-! ### The module after each step -/

/-- The module with the increment intrinsic declared. -/
def withIntrinsic (m : Module) : Module :=
  if m.hasIntrinsic Symbol.incrementIntrinsic then m
  else
    { m with
      functions := m.functions ++ [⟨Symbol.incrementIntrinsic, .externalLinkage, none, true⟩] }

/-- The module made ready for increments of a function's counters. -/
def prepared (m : Module) (function : String) : Module :=
  m.withIntrinsic.putVariable (SourceCoverage.nameVariable function)

/-- The module with instructions in front of the body of a function. -/
def insertInFront (m : Module) (function : String) (front : List Instruction) : Module :=
  m.modifyFunction function fun f => { f with body := f.body.map (front ++ ·) }

/-- The module with a function instrumented, as far as it is there. -/
def instrumented (m : Module) (function : String) (count : UInt32) : Module :=
  if m.hasFunction function then
    (m.prepared function).insertInFront function (Shape.increments function count)
  else m

/-- Once declared, the intrinsic is there. -/
theorem mem_withIntrinsic :
    Symbol.incrementIntrinsic ∈ m.withIntrinsic.functionNames := by
  rw [Module.withIntrinsic]
  by_cases hhas : m.hasIntrinsic Symbol.incrementIntrinsic
  · rw [if_pos hhas]
    refine hasFunction_iff.1 ?_
    rw [Module.hasIntrinsic, Option.any_eq_true] at hhas
    obtain ⟨f, hf, -⟩ := hhas
    rw [hasFunction, hf]
    rfl
  · rw [if_neg hhas]
    simp [Module.functionNames]

/-- Inserting instructions keeps the names. -/
theorem functionNames_insertInFront {front : List Instruction} :
    (m.insertInFront function front).functionNames = m.functionNames :=
  functionNames_modifyFunction fun _ => rfl

/-- Inserting instructions defines nothing that was not defined before. -/
theorem defines_insertInFront {front : List Instruction} {name : String} :
    (m.insertInFront function front).Defines name ↔ m.Defines name := by
  rw [insertInFront, modifyFunction, Defines, Defines]
  constructor
  · rintro ⟨_, hg, hname, hbody⟩
    obtain ⟨f, hf, rfl⟩ := List.mem_map.1 hg
    by_cases hfname : f.name = function
    · rw [if_pos hfname] at hname hbody
      exact ⟨f, hf, hname, by simpa using hbody⟩
    · rw [if_neg hfname] at hname hbody
      exact ⟨f, hf, hname, hbody⟩
  · rintro ⟨f, hf, hname, hbody⟩
    refine ⟨_, List.mem_map_of_mem hf, ?_⟩
    by_cases hfname : f.name = function
    · rw [if_pos hfname]
      exact ⟨hname, by simpa using hbody⟩
    · rw [if_neg hfname]
      exact ⟨hname, hbody⟩

/-- Preparing a function defines nothing. -/
theorem defines_prepared {name : String} : (m.prepared function).Defines name ↔ m.Defines name := by
  rw [prepared, Defines, Defines, functions_putVariable, withIntrinsic]
  split
  · rfl
  · simp

/-- Preparing a function declares the intrinsic. -/
theorem mem_functionNames_prepared :
    Symbol.incrementIntrinsic ∈ (m.prepared function).functionNames := by
  rw [prepared, functionNames_putVariable]
  exact mem_withIntrinsic

/-- Preparing a function defines its name variable. -/
theorem mem_globalNames_prepared :
    Symbol.nameVariable function ∈ (m.prepared function).globalNames :=
  mem_globalNames_putVariable.2 (.inr rfl)

/-! ### The history after each step -/

namespace Follows

/-- The intrinsic is declared without a trace in the history. -/
theorem withIntrinsic (h : m.Follows history) : m.withIntrinsic.Follows history := by
  rw [Module.withIntrinsic]
  by_cases hhas : m.hasIntrinsic Symbol.incrementIntrinsic
  · rwa [if_pos hhas]
  · rw [if_neg hhas]
    exact h.append (fun hmem => hhas (h.hasIntrinsic hmem)) .increment

/-- Preparing a function leaves no trace in the history. -/
theorem prepared (h : m.Follows history) (function : String) :
    (m.prepared function).Follows history :=
  h.withIntrinsic.putNameVariable function

/-- Inserted increments of a prepared function are pending. -/
theorem insertIncrements (h : m.Follows history) (hdefines : m.Defines function)
    (hname : Symbol.nameVariable function ∈ m.globalNames)
    (hintrinsic : Symbol.incrementIntrinsic ∈ m.functionNames) (hcount : count ≠ 0) :
    (m.insertInFront function (Shape.increments function count)).Follows
      (Function.update history function ((history function).instrument count)) := by
  obtain ⟨f₀, hf₀, hf₀name, hf₀body⟩ := hdefines
  refine h.modifyFunction (fun _ => rfl) ?_ (List.mem_map.2 ⟨f₀, hf₀, hf₀name⟩) rfl
    (fun _ => ⟨hname, hintrinsic⟩) (fun callee hcallee => h.callee_mem hcallee)
  rintro f hf rfl
  have hfind := (function?_eq_some_iff h.functionNames).2 ⟨hf₀, hf₀name⟩
  rw [(function?_eq_some_iff h.functionNames).2 ⟨hf, rfl⟩] at hfind
  obtain rfl := Option.some.inj hfind
  obtain ⟨body, hbody⟩ := Option.isSome_iff_exists.1 hf₀body
  obtain ⟨rfl, hunreserved, hvalid, hnot⟩ := h.body_eq hf hbody
  refine ⟨?_, by rw [hbody]; rfl⟩
  rw [hbody, Option.map_some, Shape.body_instrument, show f.isIntrinsic = false from hnot]
  exact .update hunreserved (hvalid.instrument hcount)

end Follows

/-- Inserting nothing changes nothing. -/
theorem insertInFront_nil : m.insertInFront function [] = m := by
  refine modifyFunction_eq_self fun f _ _ => ?_
  obtain ⟨name, linkage, body, isIntrinsic⟩ := f
  cases body <;> rfl

/-- Inserting into a function without a body changes nothing. -/
theorem insertInFront_of_not_defines {front : List Instruction} (h : ¬m.Defines function) :
    m.insertInFront function front = m := by
  refine modifyFunction_eq_self fun f hf hname => ?_
  obtain ⟨name, linkage, body, isIntrinsic⟩ := f
  cases body with
  | none => rfl
  | some body => exact absurd ⟨_, hf, hname, rfl⟩ h

/-- Inserting instructions leaves intrinsics what they are. -/
theorem hasIntrinsic_insertInFront {front : List Instruction} {name : String} :
    (m.insertInFront function front).hasIntrinsic name = m.hasIntrinsic name := by
  have hlookup : (m.insertInFront function front).function? name = (m.function? name).map fun f =>
      if f.name = function then { f with body := f.body.map (front ++ ·) } else f := by
    have hname : ∀ f : Function,
        ({ f with body := f.body.map (front ++ ·) } : Function).name = f.name := fun _ => rfl
    exact function?_modifyFunction hname
  rw [Module.hasIntrinsic, Module.hasIntrinsic, hlookup, Option.any_map]
  congr 1
  funext f
  by_cases hf : f.name = function
  · simp only [if_pos hf]
  · simp only [if_neg hf]

/-- **One more increment** behind those that were inserted in front. -/
theorem insertIncrement_insertInFront (h : m.functionNames.Nodup) {front : List Instruction}
    {intrinsic : String} {increment : Increment} (hintrinsic : m.hasIntrinsic intrinsic)
    (hbytes : (m.bytes? increment.nameVariable).isSome) (hdefines : m.Defines function) :
    (m.insertInFront function front).insertIncrement ⟨function, front.length⟩ intrinsic increment
      = .ok (m.insertInFront function (front ++ [.call intrinsic (some increment)]),
          ⟨function, front.length + 1⟩) := by
  have hdefines' : (m.insertInFront function front).functions.any (definesFunction function) :=
    any_definesFunction_iff.2 (defines_insertInFront.2 hdefines)
  have hbytes' : ¬((m.insertInFront function front).bytes? increment.nameVariable).isNone :=
    fun hnone => by
      have hsame : (m.insertInFront function front).bytes? increment.nameVariable
          = m.bytes? increment.nameVariable := rfl
      rw [hsame, Option.isNone_iff_eq_none] at hnone
      rw [hnone] at hbytes
      cases hbytes
  have hnodup : (m.insertInFront function front).functionNames.Nodup := by
    rwa [functionNames_insertInFront]
  have hfunctions : updateFirst (definesFunction function)
      (fun f => { f with
        body := f.body.map (·.insertIdx front.length (.call intrinsic (some increment))) })
      (m.insertInFront function front).functions
      = (m.insertInFront function (front ++ [.call intrinsic (some increment)])).functions := by
    rw [updateFirst_eq_map (pairwise_of_nodup_key hnodup fun f hf => by
        rw [definesFunction, Bool.and_eq_true] at hf
        exact of_decide_eq_true hf.1)]
    rw [insertInFront, insertInFront, modifyFunction, modifyFunction, List.map_map]
    refine List.map_congr_left fun f _ => ?_
    obtain ⟨name, linkage, body, isIntrinsic⟩ := f
    by_cases hname : name = function
    · cases body with
      | none => simp [hname, definesFunction]
      | some body =>
          simp only [Function.comp_apply, definesFunction, hname, decide_true, Option.map_some,
            Option.isSome_some, Bool.and_self, if_true, insertIdx_length_append,
            List.append_assoc, List.singleton_append]
    · simp [hname, definesFunction]
  simp only [insertIncrement]
  rw [if_neg (by simpa [hasIntrinsic_insertInFront] using hintrinsic), if_neg hbytes',
    if_neg (by simpa using hdefines'), hfunctions]
  rfl

end Module

/-! ### The operation -/

namespace Action

variable {s : Session} {history : History} {function : String}

/-- Declaring the intrinsic succeeds. -/
theorem declareIncrement_spec (s : Session) :
    declareIncrement s = .ok () { s with module := s.module.withIntrinsic } := by
  have hdeclare : s.module.declareIntrinsic Symbol.incrementIntrinsic
      = .ok s.module.withIntrinsic := Module.declareIntrinsic_eq_ok_iff.2 ⟨by decide, rfl⟩
  rw [declareIncrement, attempt, hdeclare]

/-- Defining a variable succeeds if its name is free and its value refers to nothing unknown. -/
theorem defineVariable_spec {v : Variable} (hname : v.name ∉ s.module.functionNames)
    (hreferences : ∀ name ∈ v.value.references, s.module.hasSymbol name) :
    defineVariable v s = .ok ()
      { (s.record (.definingGlobal s.module.name v.name)) with
        module := s.module.putVariable v } := by
  have hdefine : s.module.defineVariable v = .ok (s.module.putVariable v) :=
    Module.defineVariable_eq_ok_iff.2 ⟨hname, hreferences, rfl⟩
  rw [defineVariable, hdefine]

/-- Defining the name variable of a function succeeds on a module that follows a history. -/
theorem defineName_spec (h : s.module.Follows history) (function : String) :
    ∃ log, defineName function s = .ok ()
      { s with module := s.module.putVariable (SourceCoverage.nameVariable function), log } :=
  ⟨_, defineVariable_spec (h.not_mem_functionNames (.nameVariable function) nofun nofun) nofun⟩

/-- Preparing a function that is there succeeds. -/
theorem prepare_spec (h : s.module.Follows history) (count : UInt32)
    (hhas : s.module.hasFunction function) :
    ∃ log, prepare function count s
      = .ok ⟨⟨function⟩, count⟩ { s with module := s.module.prepared function, log } := by
  have hwith : ({ s with module := s.module.withIntrinsic } : Session).module.Follows history :=
    h.withIntrinsic
  obtain ⟨log, hname⟩ := defineName_spec hwith function
  refine ⟨log, ?_⟩
  rw [prepare, getModule_bind, if_neg (by simpa using hhas)]
  dsimp only
  rw [bind_of_ok (declareIncrement_spec s), bind_of_ok hname]
  rfl

/-- Preparing a function that is not there fails at once. -/
theorem prepare_of_not_hasFunction (count : UInt32) (hhas : ¬s.module.hasFunction function) :
    prepare function count s = .error (.unknownFunction function) s := by
  rw [prepare, getModule_bind, if_pos hhas]
  rfl

/-- **Increments inserted one after the other** come to stand in order behind those that were
inserted before. -/
theorem insertCounters_spec {m : Module} (hnodup : m.functionNames.Nodup) (i : Instrumentation)
    (hintrinsic : m.hasIntrinsic Symbol.incrementIntrinsic)
    (hbytes : (m.bytes? i.nameVariable).isSome) (hdefines : m.Defines function)
    (indices : List Nat) (front : List Instruction)
    (hs : s.module = m.insertInFront function front) :
    ∃ cursor log, insertCounters i ⟨function, front.length⟩ indices s = .ok cursor { s with
      module := m.insertInFront function (front ++ indices.map fun index =>
        .call Symbol.incrementIntrinsic (some (i.increment (UInt32.ofNat index))))
      log } := by
  induction indices generalizing front s with
  | nil =>
      refine ⟨⟨function, front.length⟩, s.log, ?_⟩
      rw [List.map_nil, List.append_nil, ← hs]
      rfl
  | cons index indices ih =>
      let event : Event := .insertingIncrement i.identity.name i.identity.structuralHash
        i.counterCount (UInt32.ofNat index)
      let call : Instruction :=
        .call Symbol.incrementIntrinsic (some (i.increment (UInt32.ofNat index)))
      let inserted : Session := { (s.record event) with
        module := m.insertInFront function (front ++ [call]) }
      have hone : insertCounter i ⟨function, front.length⟩ (UInt32.ofNat index) s
          = .ok ⟨function, (front ++ [call]).length⟩ inserted := by
        have hinsert : (s.record event).module.insertIncrement ⟨function, front.length⟩
            Symbol.incrementIntrinsic (i.increment (UInt32.ofNat index))
            = .ok (m.insertInFront function (front ++ [call]), ⟨function, front.length + 1⟩) := by
          rw [show (s.record event).module = m.insertInFront function front from hs]
          exact Module.insertIncrement_insertInFront hnodup hintrinsic hbytes hdefines
        have hstep : insertCounter i ⟨function, front.length⟩ (UInt32.ofNat index) s
            = insert ⟨function, front.length⟩ Symbol.incrementIntrinsic
              (i.increment (UInt32.ofNat index)) (s.record event) := rfl
        rw [hstep, insert, hinsert, List.length_append]
        rfl
      obtain ⟨cursor, log, hrest⟩ := @ih inserted (front ++ [call]) rfl
      refine ⟨cursor, log, ?_⟩
      have hcons : insertCounters i ⟨function, front.length⟩ (index :: indices) s
          = (insertCounter i ⟨function, front.length⟩ (UInt32.ofNat index)
              >>= fun cursor => insertCounters i cursor indices) s := by
        rw [insertCounters, List.foldlM_cons]
        rfl
      rw [hcons, bind_of_ok hone, hrest, List.append_assoc, List.singleton_append, List.map_cons]
      rfl

/-- The cursor at the start of the body of a defined function. -/
theorem entryCursor_spec (hdefines : s.module.Defines function) :
    entryCursor function s = .ok ⟨function, 0⟩ s := by
  have hcursor : s.module.entryCursor? function = some ⟨function, 0⟩ :=
    if_pos (Module.any_definesFunction_iff.2 hdefines)
  rw [entryCursor, getModule_bind, hcursor]
  rfl

/-- A function without a body has no cursor. -/
theorem entryCursor_of_not_defines (hdefines : ¬s.module.Defines function) :
    entryCursor function s = .error (.unknownFunction function) s := by
  have hcursor : s.module.entryCursor? function = none :=
    if_neg fun hany => hdefines (Module.any_definesFunction_iff.1 hany)
  rw [entryCursor, getModule_bind, hcursor]
  rfl

/-- **The effect of an instrumentation** on a module that follows a history. It succeeds exactly
if there is a body to insert into. -/
theorem instrument_spec (h : s.module.Follows history) (function : String) (count : UInt32) :
    (s.module.Defines function → ∃ i log, instrument function count s
        = .ok i { s with module := s.module.instrumented function count, log }) ∧
      (¬s.module.Defines function → ∃ e log, instrument function count s
        = .error e { s with module := s.module.instrumented function count, log }) := by
  by_cases hhas : s.module.hasFunction function
  · obtain ⟨log, hprepare⟩ := prepare_spec h count hhas
    have hmodule : s.module.instrumented function count
        = (s.module.prepared function).insertInFront function
          (Shape.increments function count) := if_pos hhas
    refine ⟨fun hdefines => ?_, fun hdefines => ?_⟩
    · have hprepared := h.prepared function
      have hdefined : (s.module.prepared function).Defines function :=
        Module.defines_prepared.2 hdefines
      have hintrinsic := hprepared.hasIntrinsic Module.mem_functionNames_prepared
      have hbytes := hprepared.bytes?_nameVariable (Module.mem_globalNames_prepared)
      obtain ⟨cursor, log', hinsert⟩ : ∃ cursor log', insertCounters ⟨⟨function⟩, count⟩
          ⟨function, 0⟩ (List.range count.toNat)
          { s with module := s.module.prepared function, log }
          = .ok cursor { s with
            module := (s.module.prepared function).insertInFront function
              (Shape.increments function count)
            log := log' } :=
        insertCounters_spec hprepared.functionNames _ hintrinsic
          (by rw [Instrumentation.nameVariable, hbytes]; rfl) hdefined _ []
          Module.insertInFront_nil.symm
      have hcursor : entryCursor function { s with module := s.module.prepared function, log }
          = .ok ⟨function, 0⟩ { s with module := s.module.prepared function, log } :=
        entryCursor_spec hdefined
      refine ⟨⟨⟨function⟩, count⟩, log', ?_⟩
      rw [hmodule, instrument, bind_of_ok hprepare, bind_of_ok hcursor, bind_of_ok hinsert]
      rfl
    · have hundefined : ¬(s.module.prepared function).Defines function := fun hdefined =>
        hdefines (Module.defines_prepared.1 hdefined)
      have hcursor : entryCursor function { s with module := s.module.prepared function, log }
          = .error (.unknownFunction function)
            { s with module := s.module.prepared function, log } :=
        entryCursor_of_not_defines hundefined
      refine ⟨.unknownFunction function, log, ?_⟩
      rw [hmodule, Module.insertInFront_of_not_defines hundefined, instrument, bind_of_ok hprepare,
        bind_of_error hcursor]
  · have hmodule : s.module.instrumented function count = s.module := if_neg hhas
    refine ⟨fun hdefines => absurd (Module.hasFunction_iff.2 ?_) hhas, fun _ => ?_⟩
    · obtain ⟨f, hf, hname, -⟩ := hdefines
      exact List.mem_map.2 ⟨f, hf, hname⟩
    · refine ⟨.unknownFunction function, s.log, ?_⟩
      rw [hmodule, instrument, bind_of_error (prepare_of_not_hasFunction count hhas)]

end Action

namespace Module.Follows

variable {m : Module} {history : History} {function : String} {count : UInt32}

/-- An instrumentation with a positive count is pending. -/
theorem instrumented (h : m.Follows history) (hdefines : m.Defines function) (hcount : count ≠ 0) :
    (m.instrumented function count).Follows
      (Function.update history function ((history function).instrument count)) := by
  have hhas : m.hasFunction function := by
    obtain ⟨f, hf, hname, -⟩ := hdefines
    exact hasFunction_iff.2 (List.mem_map.2 ⟨f, hf, hname⟩)
  rw [Module.instrumented, if_pos hhas]
  exact (h.prepared function).insertIncrements (defines_prepared.2 hdefines)
    mem_globalNames_prepared mem_functionNames_prepared hcount

/-- An instrumentation without a body or without counters leaves no trace in the history. -/
theorem instrumented_of_not (h : m.Follows history) (hnot : ¬(m.Defines function ∧ count ≠ 0)) :
    (m.instrumented function count).Follows history := by
  rw [Module.instrumented]
  split
  · have hsame : (m.prepared function).insertInFront function (Shape.increments function count)
        = m.prepared function := by
      by_cases hcount : count = 0
      · rw [hcount]
        exact insertInFront_nil
      · refine insertInFront_of_not_defines fun hdefines => hnot ⟨?_, hcount⟩
        exact defines_prepared.1 hdefines
    rw [hsame]
    exact h.prepared function
  · exact h

end Module.Follows

end SourceCoverage
