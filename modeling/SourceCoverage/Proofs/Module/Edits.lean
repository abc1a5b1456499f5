import Mathlib.Data.List.InsertIdx
import SourceCoverage.Proofs.Module.Operations
import SourceCoverage.Proofs.Pipeline.Steps

/-!
# Edits

The operations on modules are made of a few *edits*: functions are defined and declared, calls and
increments inserted, variables put into the module. An operation of several edits may fail between
two of them, and an emission, too, is nothing but edits one after another. So what each edit keeps
is kept by every operation, wherever it ends. What an edit can do is said once: it introduces a
function, or writes instructions into a body, or puts a variable into the module.

## Main results

* `Edit.outcome_of_apply`: what an edit can do.
* `Edit.signatures_or_introduces`, `Edit.has_of_apply`, `Edit.globals_or_put`: what this means for
  the names of functions, for bodies, and for global variables.
* `Operation.keeps`: what the edits of an operation keep is kept by the operation.
* `Task.perform_keeps`, `Operation.perform_keeps`: what is kept by a task, and so by an operation.
-/

namespace SourceCoverage

/-- An edit of a module. -/
inductive Edit where
  | addFunction (name : String) (linkage : Linkage)
  | declareFunction (name : String)
  | addCall (caller callee : String)
  | declareIntrinsic (name : String)
  | insertIncrement (cursor : BodyCursor) (intrinsic : String) (increment : Increment)
  | defineVariable (v : Variable)
  | putOwned (v : Variable) (owner : String)

namespace Edit

variable {m m' : Module} {e : Edit}

/-- What an edit makes of a module, unless the module refuses. -/
def apply (m : Module) : Edit → Except CoverageError Module
  | addFunction name linkage => .ok (m.addFunction name linkage)
  | declareFunction name => m.declareFunction name
  | addCall caller callee => m.addCall caller callee
  | declareIntrinsic name => m.declareIntrinsic name
  | insertIncrement cursor intrinsic increment =>
    (m.insertIncrement cursor intrinsic increment).map (·.1)
  | defineVariable v => m.defineVariable v
  | putOwned v owner => .ok (m.putOwned v owner)

/-- Whether an edit puts a variable into the module. -/
def puts : Edit → Bool
  | defineVariable _ => true
  | putOwned _ _ => true
  | _ => false

/-! ### What an edit can do -/

/-- The function that an edit introduces where it does not find one to its liking: a definition or
a declaration asks for any function of its name, an intrinsic for an intrinsic. -/
inductive Introduces (m : Module) : Edit → Function → Prop
  | addFunction {name : String} {linkage : Linkage} : name ∉ m.functionNames →
      Introduces m (.addFunction name linkage) ⟨name, linkage, some [.ret], false⟩
  | declareFunction {name : String} : name ∉ m.functionNames → name ∉ m.globalNames →
      Introduces m (.declareFunction name) ⟨name, .externalLinkage, none, false⟩
  | declareIntrinsic {name : String} : ¬m.hasIntrinsic name →
      (Symbol.after? Symbol.intrinsicHead name).isSome →
      Introduces m (.declareIntrinsic name) ⟨name, .externalLinkage, none, true⟩

/-- The instructions that an edit writes into a body. -/
inductive Writes : Edit → Instruction → Prop
  | ret {name : String} {linkage : Linkage} : Writes (.addFunction name linkage) .ret
  | call {caller callee : String} : Writes (.addCall caller callee) (.call callee none)
  | increment {cursor : BodyCursor} {intrinsic : String} {increment : Increment} :
      Writes (.insertIncrement cursor intrinsic increment) (.call intrinsic (some increment))

/-- What an edit can do to a module. -/
inductive Outcome (m : Module) : Edit → Module → Prop
  /-- It finds the module as it wants it. -/
  | same {e : Edit} : Outcome m e m
  | introduced {e : Edit} {f : Function} : e.Introduces m f →
      Outcome m e { m with functions := m.functions ++ [f] }
  /-- It writes into the body of a function that is there. -/
  | written {e : Edit} {p : Function → Bool} {f : Function → Function} :
      (∀ x, (f x).name = x.name ∧ (f x).isIntrinsic = x.isIntrinsic ∧
        (x.body.isSome → (f x).body.isSome)) →
      (∀ x, ∀ i ∈ (f x).instructions, i ∈ x.instructions ∨ e.Writes i) →
      Outcome m e { m with functions := updateFirst p f m.functions }
  | defined {v : Variable} : v.name ∉ m.functionNames →
      Outcome m (.defineVariable v) (m.putVariable v)
  | put {v : Variable} {owner : String} : Outcome m (.putOwned v owner) (m.putOwned v owner)

/-- A body that is changed has the instructions of the change, if it is there. -/
theorem mem_instructions_map {f : Function} {change : List Instruction → List Instruction}
    {i : Instruction} {written : Instruction → Prop}
    (hchange : ∀ body, i ∈ change body → i ∈ body ∨ written i)
    (hi : i ∈ Function.instructions { f with body := f.body.map change }) :
    i ∈ f.instructions ∨ written i := by
  rw [Function.instructions] at hi ⊢
  cases hbody : f.body with
  | none =>
      rw [hbody] at hi
      cases hi
  | some body =>
      rw [hbody] at hi
      exact hchange body hi

/-- **What an edit can do**, where the module does not refuse it. -/
theorem outcome_of_apply (h : e.apply m = .ok m') : e.Outcome m m' := by
  cases e with
  | addFunction name linkage =>
      obtain rfl := Except.ok.inj h
      rw [Module.addFunction]
      by_cases hhas : m.hasFunction name
      · rw [if_pos hhas]
        refine .written (fun _ => ⟨rfl, rfl, fun _ => rfl⟩) fun f i hi => ?_
        cases hbody : f.body with
        | none =>
            rw [Function.instructions, hbody] at hi
            exact .inr (List.mem_singleton.1 hi ▸ .ret)
        | some body =>
            rw [Function.instructions, hbody] at hi
            exact .inl (by rwa [Function.instructions, hbody])
      · rw [if_neg hhas]
        exact .introduced (.addFunction fun hmem => hhas (Module.hasFunction_iff.2 hmem))
  | declareFunction name =>
      obtain ⟨hvariable, rfl⟩ := Module.declareFunction_eq_ok_iff.1 h
      by_cases hhas : m.hasFunction name
      · rw [if_pos hhas]
        exact .same
      · rw [if_neg hhas]
        have hfunction : name ∉ m.functionNames := mt Module.hasFunction_iff.2 hhas
        exact .introduced (.declareFunction hfunction hvariable)
  | addCall caller callee =>
      obtain ⟨-, -, rfl⟩ := Module.addCall_eq_ok_iff.1 h
      refine .written (fun _ => ⟨rfl, rfl, fun hbody => by rwa [Option.isSome_map]⟩)
        fun f i hi => ?_
      refine mem_instructions_map (fun body hmem => ?_) hi
      rcases eq_or_mem_of_mem_insertBeforeReturn hmem with rfl | hmem
      · exact .inr .call
      · exact .inl hmem
  | declareIntrinsic name =>
      obtain ⟨hhead, rfl⟩ := Module.declareIntrinsic_eq_ok_iff.1 h
      by_cases hhas : m.hasIntrinsic name
      · rw [if_pos hhas]
        exact .same
      · rw [if_neg hhas]
        exact .introduced (.declareIntrinsic hhas hhead)
  | insertIncrement cursor intrinsic increment =>
      obtain ⟨⟨_, cursor'⟩, hinsert, rfl⟩ := map_eq_ok_iff.1 h
      obtain ⟨-, -, -, rfl, -⟩ := Module.insertIncrement_eq_ok_iff.1 hinsert
      refine .written (fun _ => ⟨rfl, rfl, fun hbody => by rwa [Option.isSome_map]⟩)
        fun f i hi => ?_
      refine mem_instructions_map (fun body hmem => ?_) hi
      rcases List.eq_or_mem_of_mem_insertIdx hmem with rfl | hmem
      · exact .inr .increment
      · exact .inl hmem
  | defineVariable v =>
      obtain ⟨hname, -, rfl⟩ := Module.defineVariable_eq_ok_iff.1 h
      exact .defined hname
  | putOwned v owner => exact Except.ok.inj h ▸ .put

/-! ### Functions, bodies, and global variables -/

/-- **An edit leaves the names of functions alone, or introduces a function.** -/
theorem signatures_or_introduces (h : e.apply m = .ok m') : m'.signatures = m.signatures ∨
    ∃ f, e.Introduces m f ∧ m' = { m with functions := m.functions ++ [f] } := by
  cases outcome_of_apply h with
  | same => exact .inl rfl
  | introduced hf => exact .inr ⟨_, hf, rfl⟩
  | written hsame _ =>
      exact .inl (map_updateFirst_of_eq fun x _ _ => by rw [(hsame x).1, (hsame x).2.1])
  | defined _ => exact .inl (by rw [Module.signatures, Module.functions_putVariable]; rfl)
  | put => exact .inl (by rw [Module.signatures, Module.functions_putOwned]; rfl)

/-- An edit takes no function away. -/
theorem functionNames_subset (h : e.apply m = .ok m') : m.functionNames ⊆ m'.functionNames := by
  intro name hname
  rcases signatures_or_introduces h with hsame | ⟨f, -, rfl⟩
  · rw [Module.functionNames_eq] at hname ⊢
    rwa [hsame]
  · rw [Module.functionNames, List.map_append]
    exact List.mem_append_left _ hname

/-- **The instructions after an edit** are those there were, and those that it writes. -/
theorem has_of_apply (h : e.apply m = .ok m') {i : Instruction} (hi : m'.Has i) :
    m.Has i ∨ e.Writes i := by
  obtain ⟨f, hf, hi⟩ := hi
  cases outcome_of_apply h with
  | same => exact .inl ⟨f, hf, hi⟩
  | introduced hintroduces =>
      rcases List.mem_append.1 hf with hf | hf
      · exact .inl ⟨f, hf, hi⟩
      · obtain rfl := List.mem_singleton.1 hf
        cases hintroduces with
        | addFunction _ => exact .inr (List.mem_singleton.1 hi ▸ .ret)
        | declareFunction _ _ => cases hi
        | declareIntrinsic _ _ => cases hi
  | written _ hwrites =>
      rcases mem_of_mem_updateFirst hf with hf | ⟨x, hx, rfl⟩
      · exact .inl ⟨f, hf, hi⟩
      · exact (hwrites x i hi).imp_left fun hold => ⟨x, List.mem_of_find?_eq_some hx, hold⟩
  | defined _ =>
      rw [Module.functions_putVariable] at hf
      exact .inl ⟨f, hf, hi⟩
  | put =>
      rw [Module.functions_putOwned] at hf
      exact .inl ⟨f, hf, hi⟩

/-- An edit that writes nothing makes no increments. -/
theorem increments_subset (h : e.apply m = .ok m') (hwrites : ∀ i, ¬e.Writes i) :
    m'.increments ⊆ m.increments := by
  intro increment hincrement
  obtain ⟨i, hi, hsome⟩ := Module.mem_increments_iff_has.1 hincrement
  have hold := (has_of_apply h hi).resolve_right (hwrites i)
  exact Module.mem_increments_iff_has.2 ⟨i, hold, hsome⟩

/-- **An edit leaves the global variables alone**, or puts one into the module. -/
theorem globals_or_put (h : e.apply m = .ok m') : m'.globals = m.globals ∨
    (∃ v, e = .defineVariable v ∧ v.name ∉ m.functionNames ∧ m' = m.putVariable v) ∨
    ∃ v owner, e = .putOwned v owner ∧ m' = m.putOwned v owner := by
  cases outcome_of_apply h with
  | same => exact .inl rfl
  | introduced _ => exact .inl rfl
  | written _ _ => exact .inl rfl
  | defined hname => exact .inr (.inl ⟨_, rfl, hname, rfl⟩)
  | put => exact .inr (.inr ⟨_, _, rfl, rfl⟩)

/-- An edit that puts no variable into the module leaves the global variables alone. -/
theorem globals_eq (h : e.apply m = .ok m') (hputs : e.puts = false) : m'.globals = m.globals := by
  rcases globals_or_put h with hsame | ⟨v, rfl, -⟩ | ⟨v, owner, rfl, -⟩
  · exact hsame
  · cases hputs
  · cases hputs

end Edit

/-! ### The edits of operations -/

namespace Operation

/-- The edits by which a module is made ready for increments of a function. -/
def preparation (function : String) : List Edit :=
  [.declareIntrinsic Symbol.incrementIntrinsic, .defineVariable (nameVariable function)]

/-- The edits of an operation that starts from a module. -/
inductive Makes (m : Module) : Operation → Edit → Prop
  | addFunction {name : String} {linkage : Linkage} :
      Makes m (.build (.addFunction name linkage)) (.addFunction name linkage)
  | declareFunction {name : String} :
      Makes m (.build (.declareFunction name)) (.declareFunction name)
  | addCall {caller callee : String} :
      Makes m (.build (.addCall caller callee)) (.addCall caller callee)
  | instrument {function : String} {count : UInt32} {e : Edit} :
      function ∈ m.functionNames → e ∈ preparation function →
      Makes m (.build (.instrument function count)) e
  | count {function : String} {count index : UInt32} {cursor : BodyCursor} :
      Makes m (.build (.instrument function count)) (.insertIncrement cursor
        Symbol.incrementIntrinsic (Instrumentation.increment ⟨⟨function⟩, count⟩ index))
  | declareIntrinsic {name : String} :
      Makes m (.declareIntrinsic name) (.declareIntrinsic name)
  | defineVariable {v : Variable} : Makes m (.defineVariable v) (.defineVariable v)
  | prepare {function : String} {count : UInt32} {e : Edit} :
      function ∈ m.functionNames → e ∈ preparation function → Makes m (.prepare function count) e
  | insert {function : String} {calls : List (String × Increment)} {call : String × Increment}
      {cursor : BodyCursor} : call ∈ calls →
      Makes m (.insert function calls) (.insertIncrement cursor call.1 call.2)

end Operation

/-- Whether an edit keeps a property of modules. -/
def Edit.Keeps (P : Module → Prop) (e : Edit) : Prop := ∀ m m', e.apply m = .ok m' → P m → P m'

namespace Action

variable {ε α : Type} {P : Module → Prop}

/-- An action that keeps a property of modules, wherever it ends. -/
abbrev Preserves (P : Module → Prop) (action : Action ε α) : Prop :=
  Keeps P (fun _ => True) action fun _ _ => True

/-- An edit on its own. -/
theorem preserves_attempt {e : Edit} (h : e.Keeps P) : Preserves P (attempt (Edit.apply · e)) :=
  .attempt fun m m' hm _ hok => ⟨h m m' hok hm, trivial⟩

/-- Defining a variable. -/
theorem keeps_defineVariable {v : Variable} {before after : Module → Prop}
    (h : ∀ m m', m.defineVariable v = .ok m' → P m → before m → P m' ∧ after m') :
    Keeps P before (defineVariable v) fun _ => after := by
  intro s hs hbefore
  rw [defineVariable]
  cases hok : s.module.defineVariable v with
  | error e => exact hs
  | ok m => exact h s.module m hok hs hbefore

/-- Defining a variable, by an edit. -/
theorem preserves_defineVariable {v : Variable} (h : (Edit.defineVariable v).Keeps P) :
    Preserves P (defineVariable v) :=
  keeps_defineVariable fun m m' hok hm _ => ⟨h m m' hok hm, trivial⟩

/-- Inserting an increment. -/
theorem preserves_insert {cursor : BodyCursor} {intrinsic : String} {increment : Increment}
    (h : (Edit.insertIncrement cursor intrinsic increment).Keeps P) :
    Preserves P (insert cursor intrinsic increment) := by
  intro s hs _
  rw [insert]
  cases hok : s.module.insertIncrement cursor intrinsic increment with
  | error e => exact hs
  | ok inserted =>
      refine ⟨h s.module inserted.1 ?_ hs, trivial⟩
      rw [Edit.apply, hok]
      rfl

/-- Taking the start of a body. -/
theorem preserves_entryCursor (function : String) : Preserves P (entryCursor function) := by
  intro s hs _
  rw [entryCursor, getModule_bind]
  cases s.module.entryCursor? function with
  | none => exact hs
  | some cursor => exact ⟨hs, trivial⟩

/-- Inserting several increments, with those that are refused passed over. -/
theorem preserves_insertAll (cursor : BodyCursor) {calls : List (String × Increment)}
    (h : ∀ call ∈ calls, ∀ cursor, (Edit.insertIncrement cursor call.1 call.2).Keeps P) :
    Preserves P (insertAll cursor calls) := by
  induction calls generalizing cursor with
  | nil => exact .pure [] fun _ _ _ => trivial
  | cons call calls ih =>
      obtain ⟨hcall, hrest⟩ := List.forall_mem_cons.1 h
      obtain ⟨intrinsic, increment⟩ := call
      intro s hs _
      have hinsert := preserves_insert (hcall cursor) s hs trivial
      cases hrun : insert cursor intrinsic increment s with
      | ok cursor' s' =>
          rw [hrun] at hinsert
          simp only [insertAll, hrun]
          exact (ih cursor' hrest).map _ s' hinsert.1 trivial
      | error e s' =>
          rw [hrun] at hinsert
          simp only [insertAll, hrun]
          exact (ih cursor hrest).map _ s' hinsert trivial

/-- Preparing a function, which has to be there. -/
theorem keeps_prepare {m₀ : Module} {function : String} (count : UInt32)
    (h : function ∈ m₀.functionNames → ∀ e ∈ Operation.preparation function, e.Keeps P) :
    Keeps P (· = m₀) (prepare function count) fun i _ => i = ⟨⟨function⟩, count⟩ := by
  refine .getModule fun m => ?_
  by_cases hhas : m.hasFunction function
  · rw [if_neg (not_not.2 hhas)]
    rintro s hs ⟨hm, rfl⟩
    have hedits := h (Module.hasFunction_iff.1 hhas)
    have hdeclare : Preserves P declareIncrement :=
      preserves_attempt (e := .declareIntrinsic Symbol.incrementIntrinsic) (hedits _ (.head _))
    have hname : Preserves P (defineName function) :=
      preserves_defineVariable (hedits _ (.tail _ (.head _)))
    have hrest : Keeps P (fun _ => True) (do
        declareIncrement
        defineName function
        return (⟨⟨function⟩, count⟩ : Instrumentation)) fun i _ => i = ⟨⟨function⟩, count⟩ :=
      hdeclare.bind fun _ => hname.bind fun _ => .pure _ fun _ _ _ => rfl
    exact hrest s hs trivial
  · rw [if_pos hhas]
    have hthrow : Keeps P (fun m' => m' = m ∧ m = m₀)
        (throw (.unknownFunction function) : Action CoverageError PUnit) fun _ _ => False :=
      .throw _
    exact hthrow.bind fun _ _ _ hfalse => hfalse.elim

/-- Inserting the increments of all counters of a function. -/
theorem preserves_countAll {i : Instrumentation} (function : String) (count : UInt32)
    (h : ∀ cursor index, (Edit.insertIncrement cursor Symbol.incrementIntrinsic
      (i.increment index)).Keeps P) : Preserves P (do
        let cursor ← entryCursor function
        let _ ← insertCounters i cursor (List.range count.toNat)
        return i) := by
  have hcounter : ∀ cursor index, Preserves P (insertCounter i cursor (UInt32.ofNat index)) :=
    fun cursor index => (Keeps.report _).bind fun _ => preserves_insert (h cursor _)
  refine (preserves_entryCursor function).bind fun cursor => ?_
  refine (Keeps.foldlM hcounter (List.range count.toNat) cursor).bind fun _ => ?_
  exact .pure _ fun _ _ _ => trivial

/-- Instrumenting a function. -/
theorem keeps_instrument {m₀ : Module} {function : String} {count : UInt32}
    (h : ∀ e, (Operation.build (.instrument function count)).Makes m₀ e → e.Keeps P) :
    Keeps P (· = m₀) (instrument function count) fun _ _ => True := by
  refine (keeps_prepare count fun hfunction e he => h e (.instrument hfunction he)).bind fun i => ?_
  rintro s hs rfl
  exact preserves_countAll function count (fun _ _ => h _ .count) s hs trivial

end Action

namespace Operation

variable {P : Module → Prop}

/-- **What the edits of an operation keep is kept by the operation**, wherever it ends. -/
theorem keeps {m₀ : Module} (operation : Operation)
    (h : ∀ e, operation.Makes m₀ e → e.Keeps P) :
    Action.Keeps P (· = m₀) operation.action fun _ _ => True := by
  have hattempt {e : Edit} (he : operation.Makes m₀ e) :
      Action.Keeps P (· = m₀) (Action.attempt (Edit.apply · e)) fun _ _ => True :=
    (Action.preserves_attempt (h e he)).weaken fun _ _ => trivial
  cases operation with
  | build step =>
      cases step with
      | addFunction name linkage =>
          exact fun s hs _ => ⟨h _ .addFunction s.module _ rfl hs, trivial⟩
      | declareFunction name => exact hattempt .declareFunction
      | addCall caller callee => exact hattempt .addCall
      | instrument function count =>
          exact (Action.keeps_instrument h).bind fun _ => .pure () fun _ _ _ => trivial
  | declareIntrinsic name => exact hattempt .declareIntrinsic
  | defineVariable v =>
      exact (Action.preserves_defineVariable (h _ .defineVariable)).weaken fun _ _ => trivial
  | prepare function count =>
      refine Action.Keeps.bind (Action.keeps_prepare count fun hfunction e he =>
        h e (.prepare hfunction he)) fun _ => .pure () fun _ _ _ => trivial
  | insert function calls =>
      have hinserts (cursor : BodyCursor) : Action.Preserves P (Action.insertAll cursor calls) :=
        Action.preserves_insertAll cursor fun call hcall cursor => h _ (.insert hcall)
      refine Action.Keeps.weaken ?_ fun _ _ => trivial
      refine (Action.preserves_entryCursor function).bind fun cursor => ?_
      exact (hinserts cursor).bind fun _ => .pure () fun _ _ _ => trivial

end Operation

namespace Task

variable {P : Module → Prop}

/-- The edits of a task that starts from a module, other than those in the course of a run. -/
inductive Makes (m : Module) : Task → Edit → Prop
  | operation {operation : Operation} {e : Edit} :
      operation.Makes m e → Makes m (.operation operation) e
  | putOwned {v : Variable} {owner : String} : Makes m (.putOwned v owner) (.putOwned v owner)

/-- **What the edits of a task keep** holds after the task if it holds before, unless the task is a
run that breaks it. -/
theorem perform_keeps (task : Task) {s : Session} (h : ∀ e, task.Makes s.module e → e.Keeps P)
    (hrun : ∀ compress config, task = .run compress config →
      P (endOf (Action.runWith compress .full config s)).module) (hs : P s.module) :
    P (task.perform s).module := by
  cases task with
  | operation operation => exact (operation.keeps fun e he => h e (.operation he)).endOf hs rfl
  | putOwned v owner => exact h _ .putOwned s.module _ rfl hs
  | run compress config => exact hrun compress config rfl

end Task

/-- What the edits of an operation keep holds after the operation if it holds before. -/
theorem Operation.perform_keeps {P : Module → Prop} (operation : Operation) {s : Session}
    (h : ∀ e, operation.Makes s.module e → e.Keeps P) (hs : P s.module) :
    P (operation.perform s).module := by
  refine (Task.operation operation).perform_keeps (fun e he => ?_) nofun hs
  cases he with
  | operation he => exact h e he

end SourceCoverage
