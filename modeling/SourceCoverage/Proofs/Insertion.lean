import Mathlib.Data.List.Nodup
import SourceCoverage.Proofs.Instrumentation
import SourceCoverage.Proofs.Tasks

/-!
# Insertions Through One Cursor

Whoever holds a cursor inserts increments one after another, and goes on with the same cursor when
the module refuses one. It refuses an increment whose intrinsic is not declared, or whose name
variable is not there or holds no bytes; since insertions declare nothing and define nothing, the
module as it was before the first of them tells which ones these are. The others come to stand in
front of the body, in their order, as if they had been the only ones. No other function is touched,
and no global variable.

An instrumentation is a case of this: the module is prepared, so that nothing is refused, and the
increments of all counters are inserted.

## Main results

* `Action.insertAll_spec`: the insertions that are accepted come to stand behind one another.
* `Action.instrument_run`: an instrumentation of a module without ambiguous names.
* `Action.inserts_in_front`: both, on the list of functions as it is written out.
-/

namespace SourceCoverage

namespace Module

variable {m : Module} {function : String} {front : List Instruction}
  {call : String × Increment} {e : CoverageError}

/-! ### What is refused -/

/-- Why a module refuses to have an increment inserted by an intrinsic, if it does. -/
def refusal? (m : Module) (call : String × Increment) : Option CoverageError :=
  if ¬m.hasIntrinsic call.1 then some (.missingIntrinsic call.1)
  else if (m.bytes? call.2.nameVariable).isNone then some (.unknownSymbol call.2.nameVariable)
  else none

/-- The increments that a module does not refuse. -/
def accepted (m : Module) (calls : List (String × Increment)) : List (String × Increment) :=
  calls.filter fun call => (m.refusal? call).isNone

/-- What is accepted is a call of an intrinsic, with a name variable that holds bytes. -/
theorem refusal?_eq_none_iff : m.refusal? call = none
    ↔ m.hasIntrinsic call.1 ∧ (m.bytes? call.2.nameVariable).isSome := by
  rw [refusal?]
  by_cases hintrinsic : m.hasIntrinsic call.1
  · rw [if_neg (not_not_intro hintrinsic)]
    cases m.bytes? call.2.nameVariable <;> simp [hintrinsic]
  · simp [hintrinsic]

/-- What is refused changes nothing, wherever it should be inserted. -/
theorem insertIncrement_of_refusal? (h : m.refusal? call = some e) (cursor : BodyCursor) :
    m.insertIncrement cursor call.1 call.2 = .error e := by
  rw [refusal?] at h
  rw [insertIncrement]
  by_cases hintrinsic : m.hasIntrinsic call.1
  · rw [if_neg (not_not_intro hintrinsic)] at h ⊢
    by_cases hbytes : (m.bytes? call.2.nameVariable).isNone
    · rw [if_pos hbytes] at h ⊢
      rw [Option.some.inj h]
    · rw [if_neg hbytes] at h
      cases h
  · rw [if_pos hintrinsic] at h ⊢
    rw [Option.some.inj h]

/-- Insertions do not change what is refused. -/
theorem refusal?_insertInFront : (m.insertInFront function front).refusal? call
    = m.refusal? call := by
  rw [refusal?, hasIntrinsic_insertInFront]
  rfl

/-- Of what is accepted, nothing is refused. -/
theorem map_refusal?_accepted (calls : List (String × Increment)) :
    (m.accepted calls).map m.refusal? = (m.accepted calls).map fun _ => none :=
  List.map_congr_left fun _ hcall => Option.isNone_iff_eq_none.1 (List.mem_filter.1 hcall).2

/-- What is accepted among what is accepted is all of it. -/
theorem accepted_accepted (calls : List (String × Increment)) :
    m.accepted (m.accepted calls) = m.accepted calls := by
  rw [accepted, accepted, List.filter_filter]
  simp only [Bool.and_self]

/-! ### The functions of a module, written out -/

/-- Where names of functions are distinct, instructions in front of a body change one element of
the list of functions. -/
theorem insertInFront_eq {before after : List Function} {f : Function} {body : List Instruction}
    (h : m.functionNames.Nodup) (hsplit : m.functions = before ++ f :: after)
    (hbody : f.body = some body) : m.insertInFront f.name front
      = { m with functions := before ++ { f with body := some (front ++ body) } :: after } := by
  rw [functionNames, hsplit, List.map_append, List.map_cons, List.nodup_middle,
    List.nodup_cons, List.mem_append, List.mem_map, List.mem_map] at h
  have hothers : ∀ fs : List Function, (∀ g ∈ fs, g.name ≠ f.name) →
      (fs.map fun g => if g.name = f.name then { g with body := g.body.map (front ++ ·) } else g)
        = fs := by
    intro fs hfs
    refine (List.map_congr_left fun g hg => ?_).trans (List.map_id fs)
    rw [if_neg (hfs g hg), id]
  have hbefore := hothers before fun g hg hname => h.1 (.inl ⟨g, hg, hname⟩)
  have hafter := hothers after fun g hg hname => h.1 (.inr ⟨g, hg, hname⟩)
  rw [insertInFront, modifyFunction, hsplit, List.map_append, List.map_cons, hbefore, hafter,
    if_pos rfl, hbody, Option.map_some]

/-- A function with a body among the functions is defined. -/
theorem defines_of_split {before after : List Function} {f : Function} {body : List Instruction}
    (hsplit : m.functions = before ++ f :: after) (hbody : f.body = some body) :
    m.Defines f.name :=
  ⟨f, hsplit ▸ List.mem_append_right before (List.mem_cons_self ..), rfl, by rw [hbody]; rfl⟩

end Module

namespace Action

variable {s : Session} {m : Module} {function : String}

/-! ### Insertions one after another -/

/-- An answer that is looked at afterwards. -/
theorem map_of_ok {ε α β : Type} {action : Action ε α} {f : α → β} {s s' : Session} {a : α}
    (h : action s = .ok a s') : (f <$> action) s = .ok (f a) s' := by
  change EStateM.map f action s = _
  rw [EStateM.map, h]

/-- One insertion behind others: it is refused and changes nothing, or it comes to stand behind
them. -/
theorem insert_spec (hnodup : m.functionNames.Nodup) (hdefines : m.Defines function)
    {front : List Instruction} (hs : s.module = m.insertInFront function front)
    (call : String × Increment) :
    insert ⟨function, front.length⟩ call.1 call.2 s =
      match m.refusal? call with
      | some e => .error e s
      | none => .ok ⟨function, front.length + 1⟩ { s with
          module := m.insertInFront function (front ++ [.call call.1 (some call.2)]) } := by
  rw [insert, hs]
  cases hrefusal : m.refusal? call with
  | some e =>
      have hrefuses : (m.insertInFront function front).refusal? call = some e :=
        Module.refusal?_insertInFront.trans hrefusal
      rw [Module.insertIncrement_of_refusal? hrefuses]
  | none =>
      obtain ⟨hintrinsic, hbytes⟩ := Module.refusal?_eq_none_iff.1 hrefusal
      rw [Module.insertIncrement_insertInFront hnodup hintrinsic hbytes hdefines]

/-- **Insertions through one cursor.** Those that are accepted come to stand behind those that were
inserted before, in their order. Induction on the insertions: one that is refused leaves the cursor
behind the same instructions as before. -/
theorem insertAll_spec (hnodup : m.functionNames.Nodup) (hdefines : m.Defines function)
    (calls : List (String × Increment)) (front : List Instruction)
    (hs : s.module = m.insertInFront function front) :
    insertAll ⟨function, front.length⟩ calls s = .ok (calls.map m.refusal?)
      { s with
        module := m.insertInFront function
          (front ++ (m.accepted calls).map fun call => .call call.1 (some call.2)) } := by
  induction calls generalizing s front with
  | nil =>
      change EStateM.Result.ok [] s = .ok [] { s with
        module := m.insertInFront function (front ++ []) }
      rw [List.append_nil, ← hs]
  | cons call calls ih =>
      obtain ⟨intrinsic, increment⟩ := call
      have hone := insert_spec hnodup hdefines hs (intrinsic, increment)
      cases hrefusal : m.refusal? (intrinsic, increment) with
      | some e =>
          have haccepted : m.accepted ((intrinsic, increment) :: calls) = m.accepted calls :=
            List.filter_cons_of_neg (by simp [hrefusal])
          simp only [hrefusal] at hone
          simp only [insertAll, hone, haccepted, List.map_cons, hrefusal]
          exact map_of_ok (ih front hs)
      | none =>
          have haccepted : m.accepted ((intrinsic, increment) :: calls)
              = (intrinsic, increment) :: m.accepted calls :=
            List.filter_cons_of_pos (by simp [hrefusal])
          simp only [hrefusal] at hone
          simp only [insertAll, hone, haccepted, List.map_cons, hrefusal]
          have hrest := ih (s := { s with
            module := m.insertInFront function (front ++ [.call intrinsic (some increment)]) })
            (front ++ [.call intrinsic (some increment)]) rfl
          rw [List.length_append, List.append_assoc] at hrest
          exact map_of_ok hrest

/-- Insertions through a fresh cursor at the start of a body. -/
theorem insertAll_entry_spec (hnodup : s.module.functionNames.Nodup)
    (hdefines : s.module.Defines function) (calls : List (String × Increment)) :
    (entryCursor function >>= (insertAll · calls)) s = .ok (calls.map s.module.refusal?)
      { s with
        module := s.module.insertInFront function
          ((s.module.accepted calls).map fun call => .call call.1 (some call.2)) } := by
  rw [bind_of_ok (entryCursor_spec hdefines)]
  exact insertAll_spec hnodup hdefines calls [] Module.insertInFront_nil.symm

end Action

/-! ### Instrumentation -/

namespace Module

variable {m : Module} {function : String}

/-- The declaration of the increment intrinsic that a module lacks, if it does. -/
def lackingIntrinsic (m : Module) : List Function :=
  if m.hasIntrinsic Symbol.incrementIntrinsic then []
  else [⟨Symbol.incrementIntrinsic, .externalLinkage, none, true⟩]

/-- What is lacking is declared behind all functions. -/
theorem functions_withIntrinsic :
    m.withIntrinsic.functions = m.functions ++ m.lackingIntrinsic := by
  rw [withIntrinsic, lackingIntrinsic]
  split
  · rw [List.append_nil]
  · rfl

/-- So it is when a function is prepared. -/
theorem functions_prepared :
    (m.prepared function).functions = m.functions ++ m.lackingIntrinsic := by
  rw [prepared, functions_putVariable, functions_withIntrinsic]

/-- The increment intrinsic can be called once it is declared, unless an ordinary function has its
name. -/
theorem hasIntrinsic_prepared_iff : (m.prepared function).hasIntrinsic Symbol.incrementIntrinsic
    ↔ (Symbol.incrementIntrinsic ∈ m.functionNames → m.hasIntrinsic Symbol.incrementIntrinsic) := by
  have hfind : (m.prepared function).function? Symbol.incrementIntrinsic
      = (m.function? Symbol.incrementIntrinsic).or
        (m.lackingIntrinsic.find? (·.name = Symbol.incrementIntrinsic)) := by
    rw [function?, functions_prepared, List.find?_append]
    rfl
  rw [← hasFunction_iff, hasFunction, hasIntrinsic, hfind, hasIntrinsic]
  cases hfunction : m.function? Symbol.incrementIntrinsic with
  | some f => simp
  | none => simp [lackingIntrinsic, hasIntrinsic, hfunction]

/-- Names stay distinct when a function is prepared, unless an ordinary function has the name of the
increment intrinsic. -/
theorem nodup_functionNames_prepared (h : m.functionNames.Nodup)
    (hintrinsic : Symbol.incrementIntrinsic ∈ m.functionNames →
      m.hasIntrinsic Symbol.incrementIntrinsic) : (m.prepared function).functionNames.Nodup := by
  rw [functionNames, functions_prepared, lackingIntrinsic]
  split
  · rwa [List.append_nil]
  · next hhas =>
      rw [List.map_append]
      refine h.append (List.nodup_singleton _) fun name hname hnew => hhas (hintrinsic ?_)
      obtain rfl := List.mem_singleton.1 hnew
      exact hname

/-- The name variable of a prepared function holds bytes. -/
theorem bytes?_prepared : ((m.prepared function).bytes? (Symbol.nameVariable function)).isSome := by
  rw [bytes?_eq, prepared]
  have hdefinition :=
    definition?_putVariable_self m.withIntrinsic (SourceCoverage.nameVariable function)
  rw [show Symbol.nameVariable function = (SourceCoverage.nameVariable function).name from rfl,
    hdefinition]
  rfl

end Module

namespace Action

variable {s : Session} {function : String} {count : UInt32}

/-- A variable cannot be defined under the name of a function. -/
theorem defineVariable_of_mem {v : Variable} (h : v.name ∈ s.module.functionNames) :
    ∃ e, defineVariable v s = .error e s := by
  rw [defineVariable]
  cases hdefine : s.module.defineVariable v with
  | ok m => exact absurd h (Module.defineVariable_eq_ok_iff.1 hdefine).1
  | error e => exact ⟨e, rfl⟩

/-- Without the intrinsic, not even one increment can be inserted. -/
theorem insertCounters_of_not_hasIntrinsic
    (h : ¬s.module.hasIntrinsic Symbol.incrementIntrinsic) (hcount : count ≠ 0)
    (i : Instrumentation) (cursor : BodyCursor) :
    ∃ e s', insertCounters i cursor (List.range count.toNat) s = .error e s' := by
  let increment := i.increment 0
  let s₁ := s.record
    (.insertingIncrement i.identity.name i.identity.structuralHash i.counterCount 0)
  have hrefusal : s₁.module.refusal? (Symbol.incrementIntrinsic, increment)
      = some (.missingIntrinsic Symbol.incrementIntrinsic) := if_pos h
  have hinsert : insert cursor Symbol.incrementIntrinsic increment s₁
      = .error (.missingIntrinsic Symbol.incrementIntrinsic) s₁ := by
    rw [insert, Module.insertIncrement_of_refusal? hrefusal cursor]
  have hone : insertCounter i cursor 0 s
      = .error (.missingIntrinsic Symbol.incrementIntrinsic) s₁ := hinsert
  have hpositive : count.toNat ≠ 0 := fun hzero => hcount (UInt32.toNat_inj.1 hzero)
  obtain ⟨n, hn⟩ := Nat.exists_eq_succ_of_ne_zero hpositive
  rw [hn, List.range_succ_eq_map, insertCounters, List.foldlM_cons]
  exact ⟨_, _, bind_of_error hone _⟩

/-- A function that is there can be prepared unless a function has the name of its name variable. -/
theorem prepare_run (hhas : s.module.hasFunction function) (count : UInt32) :
    (Symbol.nameVariable function ∉ s.module.functionNames → ∃ log, prepare function count s
      = .ok ⟨⟨function⟩, count⟩ { s with module := s.module.prepared function, log }) ∧
    (Symbol.nameVariable function ∈ s.module.functionNames →
      ∃ e s', prepare function count s = .error e s') := by
  let s₁ : Session := { s with module := s.module.withIntrinsic }
  have hnames : Symbol.nameVariable function ∈ s₁.module.functionNames
      ↔ Symbol.nameVariable function ∈ s.module.functionNames := by
    have hne : Symbol.nameVariable function ≠ Symbol.incrementIntrinsic := fun heq => by
      cases (OwnSymbol.name_inj (a := .nameVariable function) (b := .incrementIntrinsic)).1 heq
    rw [Module.functionNames, Module.functions_withIntrinsic, List.map_append, List.mem_append]
    refine or_iff_left fun hlacking => hne ?_
    rw [Module.lackingIntrinsic] at hlacking
    split at hlacking
    · cases hlacking
    · exact List.mem_singleton.1 hlacking
  have hprepare : prepare function count s
      = (defineName function >>= fun _ => pure ⟨⟨function⟩, count⟩) s₁ := by
    rw [prepare, getModule_bind, if_neg (by simpa using hhas)]
    exact bind_of_ok (declareIncrement_spec s) _
  constructor
  · intro hfree
    have hdefine := defineVariable_spec (s := s₁) (v := SourceCoverage.nameVariable function)
      (fun hmem => hfree (hnames.1 hmem)) (List.forall_mem_nil _)
    exact ⟨_, hprepare.trans (bind_of_ok hdefine _)⟩
  · intro htaken
    obtain ⟨e, hdefine⟩ := defineVariable_of_mem (s := s₁)
      (v := SourceCoverage.nameVariable function) (hnames.2 htaken)
    exact ⟨e, s₁, hprepare.trans (bind_of_error hdefine _)⟩

end Action

namespace Module

variable {m : Module}

/-- Whether nothing is in the way of instrumenting a function that is defined: no function has the
name of its name variable, and if there is something to increment, no ordinary function has that of
the increment intrinsic. -/
structure Instrumentable (m : Module) (function : String) (count : UInt32) : Prop where
  nameVariable : Symbol.nameVariable function ∉ m.functionNames
  intrinsic : count ≠ 0 → Symbol.incrementIntrinsic ∈ m.functionNames →
    m.hasIntrinsic Symbol.incrementIntrinsic

/-- The functions of a prepared module with the increments of one of them in front of its body. -/
theorem Instrumentable.functions_eq {before after : List Function} {f : Function}
    {body : List Instruction} {count : UInt32} (hfree : m.Instrumentable f.name count)
    (hnodup : m.functionNames.Nodup) (hsplit : m.functions = before ++ f :: after)
    (hbody : f.body = some body) :
    ((m.prepared f.name).insertInFront f.name (Shape.increments f.name count)).functions
      = before ++ { f with body := some (Shape.increments f.name count ++ body) }
        :: (after ++ m.lackingIntrinsic) := by
  have hprepared : (m.prepared f.name).functions
      = before ++ f :: (after ++ m.lackingIntrinsic) := by
    rw [functions_prepared, hsplit, List.append_assoc, List.cons_append]
  by_cases hcount : count = 0
  · -- Names may be ambiguous here, but there is nothing to insert.
    have hnone : Shape.increments f.name count = [] := by rw [hcount]; rfl
    rw [hnone, insertInFront_nil, hprepared, List.nil_append, ← hbody]
  · rw [insertInFront_eq (nodup_functionNames_prepared hnodup (hfree.intrinsic hcount)) hprepared
      hbody]

/-- A declaration of the intrinsic leaves the variables alone. -/
@[simp]
theorem globals_withIntrinsic : m.withIntrinsic.globals = m.globals := by
  rw [withIntrinsic]
  split <;> rfl

/-- A declaration of the intrinsic leaves what a name stands for among the variables. -/
@[simp]
theorem global?_withIntrinsic {name : String} : m.withIntrinsic.global? name = m.global? name := by
  rw [global?, globals_withIntrinsic, global?]

/-- Preparing a function defines its name variable and leaves the other variables alone. -/
theorem globals_prepared {function : String} : (m.prepared function).globals
    = (m.putVariable (SourceCoverage.nameVariable function)).globals := by
  rw [prepared, putVariable, putVariable, global?_withIntrinsic]
  split <;> simp only [globals_withIntrinsic]

end Module

namespace Action

variable {s : Session} {function : String} {count : UInt32}

/-- The increments of all counters are inserted into a prepared module, unless the intrinsic is
needed and an ordinary function has its name. -/
theorem insertCounters_prepared (hnodup : s.module.functionNames.Nodup)
    (hdefines : s.module.Defines function) (hintrinsic : count ≠ 0 →
      Symbol.incrementIntrinsic ∈ s.module.functionNames →
      s.module.hasIntrinsic Symbol.incrementIntrinsic) (log : Array Event) :
    ∃ cursor log', insertCounters ⟨⟨function⟩, count⟩ ⟨function, 0⟩ (List.range count.toNat)
        { s with module := s.module.prepared function, log } = .ok cursor { s with
      module := (s.module.prepared function).insertInFront function
        (Shape.increments function count)
      log := log' } := by
  by_cases hcount : count = 0
  · have hnone : Shape.increments function count = [] := by rw [hcount]; rfl
    rw [hnone, Module.insertInFront_nil, hcount]
    exact ⟨⟨function, 0⟩, log, rfl⟩
  · exact insertCounters_spec (Module.nodup_functionNames_prepared hnodup (hintrinsic hcount))
      _ (Module.hasIntrinsic_prepared_iff.2 (hintrinsic hcount)) Module.bytes?_prepared
      (Module.defines_prepared.2 hdefines) _ [] Module.insertInFront_nil.symm

/-- **An instrumentation** of a function that is defined succeeds unless something is in the way,
and puts the increments of all counters in front of the body of the function. -/
theorem instrument_run (hnodup : s.module.functionNames.Nodup)
    (hdefines : s.module.Defines function) (count : UInt32) :
    (s.module.Instrumentable function count → ∃ log, instrument function count s
      = .ok ⟨⟨function⟩, count⟩ { s with
          module := (s.module.prepared function).insertInFront function
            (Shape.increments function count)
          log }) ∧
    (¬s.module.Instrumentable function count →
      ∃ e s', instrument function count s = .error e s') := by
  have hhas : s.module.hasFunction function := by
    obtain ⟨f, hf, hname, -⟩ := hdefines
    exact Module.hasFunction_iff.2 (List.mem_map.2 ⟨f, hf, hname⟩)
  obtain ⟨hok, herror⟩ := prepare_run hhas count
  by_cases hvariable : Symbol.nameVariable function ∈ s.module.functionNames
  · obtain ⟨e, s', hprepare⟩ := herror hvariable
    exact ⟨fun h => absurd hvariable h.nameVariable, fun _ => ⟨e, s', bind_of_error hprepare _⟩⟩
  obtain ⟨log, hprepare⟩ := hok hvariable
  let s₁ : Session := { s with module := s.module.prepared function, log }
  have hdefined : s₁.module.Defines function := Module.defines_prepared.2 hdefines
  have hinstrument : instrument function count s
      = (insertCounters ⟨⟨function⟩, count⟩ ⟨function, 0⟩ (List.range count.toNat)
          >>= fun _ => pure ⟨⟨function⟩, count⟩) s₁ := by
    rw [instrument, bind_of_ok hprepare]
    exact bind_of_ok (entryCursor_spec hdefined) _
  constructor
  · rintro ⟨-, hintrinsic⟩
    obtain ⟨cursor, log', hinsert⟩ := insertCounters_prepared hnodup hdefines hintrinsic log
    exact ⟨log', hinstrument.trans (bind_of_ok hinsert _)⟩
  · intro hnot
    have hcount : count ≠ 0 := fun hzero => hnot ⟨hvariable, fun hne => absurd hzero hne⟩
    have hintrinsic : ¬s₁.module.hasIntrinsic Symbol.incrementIntrinsic := fun hhas =>
      hnot ⟨hvariable, fun _ => Module.hasIntrinsic_prepared_iff.1 hhas⟩
    obtain ⟨e, s', hinsert⟩ :=
      insertCounters_of_not_hasIntrinsic hintrinsic hcount ⟨⟨function⟩, count⟩ ⟨function, 0⟩
    exact ⟨e, s', hinstrument.trans (bind_of_error hinsert _)⟩

/-- **Insertions are ordered and framed.** In a module without ambiguous names, let `f` have a body.
Of increments that are inserted through a fresh cursor at its start, those that the module does not
refuse come to stand in front of the body in their order, and nothing else changes; each answer is
the one that the module as it was gives, and with those that are refused left out the same comes of
it. An instrumentation succeeds unless something is in the way, and then puts an increment for each
counter in front of the body, declares the intrinsic if it is lacking, and defines the name
variable. -/
theorem inserts_in_front {before after : List Function} {f : Function} {body : List Instruction}
    (h : s.module.Unambiguous) (hsplit : s.module.functions = before ++ f :: after)
    (hbody : f.body = some body) :
    (∀ calls : List (String × Increment), ∃ s',
      (entryCursor f.name >>= (insertAll · calls)) s = .ok (calls.map s.module.refusal?) s' ∧
      (entryCursor f.name >>= (insertAll · (s.module.accepted calls))) s
        = .ok ((s.module.accepted calls).map fun _ => none) s' ∧
      s' = { s with
        module := { s.module with
          functions := before ++ { f with
            body := some (((s.module.accepted calls).map fun call =>
              .call call.1 (some call.2)) ++ body) } :: after } }) ∧
    ∀ count : UInt32,
      ((∃ i s', instrument f.name count s = .ok i s') ↔ s.module.Instrumentable f.name count) ∧
      ∀ i s', instrument f.name count s = .ok i s' →
        s'.module.functions = before ++ { f with
          body := some (((List.range count.toNat).map fun index =>
            .call "llvm.instrprof.increment" (some
              ⟨"__profn_" ++ f.name, functionHash (utf8 f.name), count, UInt32.ofNat index⟩))
            ++ body) } :: (after ++ s.module.lackingIntrinsic) ∧
        s'.module.globals = (s.module.putVariable (nameVariable f.name)).globals := by
  have hdefines := Module.defines_of_split hsplit hbody
  refine ⟨fun calls => ⟨_, insertAll_entry_spec h.functions hdefines calls, ?_, ?_⟩,
    fun count => ?_⟩
  · have haccepted := insertAll_entry_spec h.functions hdefines (s.module.accepted calls)
    rwa [Module.map_refusal?_accepted, Module.accepted_accepted] at haccepted
  · rw [Module.insertInFront_eq h.functions hsplit hbody]
  · obtain ⟨hok, herror⟩ := instrument_run h.functions hdefines count
    have hfree : ∀ {i s'}, instrument f.name count s = .ok i s' →
        s.module.Instrumentable f.name count := fun hrun =>
      Classical.byContradiction fun hnot => by
        obtain ⟨e, t, hfail⟩ := herror hnot
        cases hfail.symm.trans hrun
    refine ⟨⟨fun ⟨i, s', hrun⟩ => hfree hrun, fun hfree => ?_⟩, fun i s' hrun => ?_⟩
    · obtain ⟨log, hrun⟩ := hok hfree
      exact ⟨_, _, hrun⟩
    · obtain ⟨log, hdone⟩ := hok (hfree hrun)
      obtain ⟨-, rfl⟩ := EStateM.Result.ok.inj (hdone.symm.trans hrun)
      exact ⟨(hfree hrun).functions_eq h.functions hsplit hbody, Module.globals_prepared⟩

/-- A module in which `f` is defined between other functions, the intrinsic is declared, and there
is a name variable as well as a variable that holds no bytes. -/
def crowdedModule : Module where
  name := "m"
  functions := [⟨"g", .internalLinkage, some [.ret], false⟩,
    ⟨"f", .externalLinkage, some [.call "g" none, .ret], false⟩,
    ⟨"llvm.instrprof.increment", .externalLinkage, none, true⟩,
    ⟨"puts", .externalLinkage, none, false⟩]
  globals := [⟨{ name := "__profn_f", value := .bytes [102] }, none⟩,
    ⟨{ name := "table", value := .address "g" }, none⟩]

/-- Four insertions into it, of which the second and the third are refused. -/
def crowdedCalls : List (String × Increment) :=
  [("llvm.instrprof.increment", ⟨"__profn_f", 1, 2, 0⟩), ("puts", ⟨"__profn_f", 1, 2, 1⟩),
    ("llvm.instrprof.increment", ⟨"table", 1, 2, 1⟩),
    ("llvm.instrprof.increment", ⟨"__profn_f", 1, 2, 1⟩)]

/-- The first and the last of the insertions end up behind one another, and an instrumentation of
two counters succeeds. -/
theorem inserts_in_front_crowdedModule :
    crowdedModule.Unambiguous ∧ (∃ s',
      (entryCursor "f" >>= (insertAll · crowdedCalls)) { module := crowdedModule }
        = .ok [none, some (.missingIntrinsic "puts"), some (.unknownSymbol "table"), none] s' ∧
      s'.module.functions = [⟨"g", .internalLinkage, some [.ret], false⟩,
        ⟨"f", .externalLinkage,
          some [.call "llvm.instrprof.increment" (some ⟨"__profn_f", 1, 2, 0⟩),
            .call "llvm.instrprof.increment" (some ⟨"__profn_f", 1, 2, 1⟩), .call "g" none, .ret],
          false⟩,
        ⟨"llvm.instrprof.increment", .externalLinkage, none, true⟩,
        ⟨"puts", .externalLinkage, none, false⟩]) ∧
    ∃ i s', instrument "f" 2 { module := crowdedModule } = .ok i s' := by
  have hnames : crowdedModule.Unambiguous := ⟨by decide, by decide, by decide⟩
  have hsplit : crowdedModule.functions = [⟨"g", .internalLinkage, some [.ret], false⟩]
      ++ ⟨"f", .externalLinkage, some [.call "g" none, .ret], false⟩
        :: [⟨"llvm.instrprof.increment", .externalLinkage, none, true⟩,
          ⟨"puts", .externalLinkage, none, false⟩] := rfl
  obtain ⟨hinserts, hinstruments⟩ :=
    inserts_in_front (s := { module := crowdedModule }) hnames hsplit rfl
  obtain ⟨s', hrun, -, rfl⟩ := hinserts crowdedCalls
  have hfree : crowdedModule.Instrumentable "f" 2 := ⟨by decide, fun _ _ => by decide⟩
  exact ⟨hnames, ⟨_, hrun, rfl⟩, (hinstruments 2).1.2 hfree⟩

end Action

end SourceCoverage
