import SourceCoverage.Proofs.Lifetime

/-!
# Bodies End in Their Only Return

A body comes into being as a single return, and nothing that is done to it adds another one, takes
it away, or gets behind it. Calls go in front of the first return. Increments go where the cursor
is, which starts in front of the body and moves on by one with each of them, so that it stays as
many instructions away from the end as there were at first, and there was a return. Lowering puts
one instruction in the place of another, and never of a return. Declarations have no body, whatever
they share their name with, and deletion takes functions as a whole.

All this holds in the middle of operations and runs that fail as well. So verification, which looks
for the return at the end of each body, never misses it.

## Main results

* `Module.Returns`: the invariant.
* `Module.invariant_returns`, `Module.PassStep.returns`: operations and passes keep it.
* `returns_performAll`: it holds wherever operations and runs lead, and no run fails for want of it.
-/

namespace SourceCoverage

/-! ### Bodies -/

/-- Whether a body has one return, at its end. -/
structure ReturnsOnce (body : List Instruction) : Prop where
  count : body.count .ret = 1
  last : body.getLast? = some .ret

/-- A call in front of the first return is one more instruction. -/
theorem insertBeforeReturn_perm (call : Instruction) (body : List Instruction) :
    (insertBeforeReturn call body).Perm (call :: body) := by
  fun_induction insertBeforeReturn call body with
  | case1 => exact .refl _
  | case2 rest => exact .refl _
  | case3 first rest _ ih => exact (ih.cons first).trans (.swap call first rest)

namespace ReturnsOnce

variable {body : List Instruction}

/-- The body of a function that is new. -/
theorem single : ReturnsOnce [.ret] := ⟨rfl, rfl⟩

/-- A call in front of the return. -/
theorem insertBeforeReturn (h : ReturnsOnce body) {call : Instruction} (hcall : call ≠ .ret) :
    ReturnsOnce (SourceCoverage.insertBeforeReturn call body) where
  count := by
    rw [(insertBeforeReturn_perm call body).count_eq, List.count_cons_of_ne hcall]
    exact h.count
  last := getLast?_insertBeforeReturn h.last

/-- A call at a place inside the body. -/
theorem insertIdx (h : ReturnsOnce body) {n : Nat} (hn : n < body.length) {call : Instruction}
    (hcall : call ≠ .ret) : ReturnsOnce (body.insertIdx n call) where
  count := by
    rw [(List.perm_insertIdx call body (Nat.le_of_lt hn)).count_eq, List.count_cons_of_ne hcall]
    exact h.count
  last := (getLast?_insertIdx hn call).trans h.last

/-- Other instructions in the places of some that are no returns. -/
theorem map (h : ReturnsOnce body) {f : Instruction → Instruction}
    (hf : ∀ i, f i = .ret ↔ i = .ret) : ReturnsOnce (body.map f) where
  count := by
    have hsame : (fun i => f i == .ret) = fun i : Instruction => i == .ret := by
      funext i
      rw [Bool.eq_iff_iff, beq_iff_eq, beq_iff_eq, hf]
    rw [List.count, List.countP_map, Function.comp_def, hsame]
    exact h.count
  last := by
    rw [List.getLast?_map, h.last, Option.map_some, (hf .ret).2 rfl]

end ReturnsOnce

/-- Lowering makes no returns and leaves those that are there. -/
theorem Instruction.lower_eq_ret_iff {lowering : Lowering} {profiled : List ProfiledName}
    {i : Instruction} : i.lower lowering profiled = .ret ↔ i = .ret := by
  constructor
  · intro h
    rw [lower] at h
    split at h
    · exact h
    · split at h
      · exact h
      · split at h <;> cases h
  · rintro rfl
    rfl

/-! ### The invariant -/

namespace Module

variable {m m' : Module}

/-- Whether every body of a module has one return, at its end. -/
def Returns (m : Module) : Prop := ∀ f ∈ m.functions, ∀ body, f.body = some body → ReturnsOnce body

namespace Returns

/-- With other functions, if their bodies return. -/
theorem withFunctions (h : m.Returns) (hfunctions : ∀ f ∈ m'.functions, f ∈ m.functions ∨
    ∀ body, f.body = some body → ReturnsOnce body) : m'.Returns := fun f hf body hbody =>
  (hfunctions f hf).elim (fun hold => h f hold body hbody) fun hnew => hnew body hbody

/-- With the same functions. -/
theorem congr (h : m.Returns) (hfunctions : m'.functions = m.functions) : m'.Returns :=
  h.withFunctions fun _ hf => .inl (hfunctions ▸ hf)

/-- With some of the functions. -/
theorem filter (h : m.Returns) (hfunctions : m'.functions.Sublist m.functions) : m'.Returns :=
  h.withFunctions fun _ hf => .inl (hfunctions.subset hf)

/-- With one more function, if it is a declaration or returns. -/
theorem append (h : m.Returns) {f : Function}
    (hf : ∀ body, f.body = some body → ReturnsOnce body) :
    ({ m with functions := m.functions ++ [f] } : Module).Returns :=
  h.withFunctions fun g hg => (List.mem_append.1 hg).imp_right fun hg => by
    rwa [List.mem_singleton.1 hg]

/-- With another body of one function, if this one returns. -/
theorem updateBody (h : m.Returns) {p : Function → Bool}
    {change : List Instruction → List Instruction}
    (hchange : ∀ f body, m.functions.find? p = some f → f.body = some body → ReturnsOnce body →
      ReturnsOnce (change body)) :
    Returns { m with
      functions := updateFirst p (fun f => { f with body := f.body.map change }) m.functions } := by
  refine h.withFunctions fun g hg => (mem_of_mem_updateFirst hg).imp_right ?_
  rintro ⟨f, hf, rfl⟩ _ hmap
  obtain ⟨body, hbody, rfl⟩ := Option.map_eq_some_iff.1 hmap
  exact hchange f body hf hbody (h f (List.mem_of_find?_eq_some hf) body hbody)

end Returns

/-- **Operations keep bodies returning**: it is an invariant of construction. -/
theorem invariant_returns : Invariant Returns where
  nonempty := fun h f hf hempty => by cases (h f hf [] hempty).last
  addFunction := by
    intro m name linkage h
    rw [Module.addFunction]
    split
    · refine h.withFunctions fun f hf => (mem_of_mem_updateFirst hf).imp_right ?_
      rintro ⟨old, hold, rfl⟩ body hbody
      obtain rfl := Option.some.inj hbody
      cases hoption : old.body with
      | none => exact .single
      | some body => exact h old (List.mem_of_find?_eq_some hold) body hoption
    · exact h.append fun body hbody => Option.some.inj hbody ▸ .single
  declareFunction := by
    intro m m' name h hok
    obtain ⟨-, rfl⟩ := declareFunction_eq_ok_iff.1 hok
    split
    · exact h
    · exact h.append fun body hbody => by cases hbody
  addCall := by
    intro m m' caller callee h hok
    obtain ⟨-, -, rfl⟩ := addCall_eq_ok_iff.1 hok
    exact h.updateBody fun _ _ _ _ hbody => hbody.insertBeforeReturn fun hret => by cases hret
  declareIntrinsic := by
    intro m m' name h hok
    obtain ⟨-, rfl⟩ := declareIntrinsic_eq_ok_iff.1 hok
    split
    · exact h
    · exact h.append fun body hbody => by cases hbody
  defineVariable := by
    intro m m' v h hok
    obtain ⟨-, -, rfl⟩ := defineVariable_eq_ok_iff.1 hok
    exact h.congr functions_putVariable
  insertIncrement := by
    intro m m' cursor cursor' intrinsic increment h hinside hok
    obtain ⟨-, -, -, rfl, rfl⟩ := insertIncrement_eq_ok_iff.1 hok
    refine h.updateBody fun f body hf hbody hreturns => ?_
    have hposition := hinside f hf
    rw [Function.instructions, hbody] at hposition
    exact hreturns.insertIdx hposition fun hret => by cases hret

/-- **Passes keep bodies returning**, in each of their steps. -/
theorem PassStep.returns (h : PassStep m m') (hm : m.Returns) : m'.Returns := by
  cases h with
  | profile function _ =>
      exact hm.congr (by rw [Module.profile, functions_putOwned, functions_putOwned])
  | fold lowering _ _ =>
      intro f hf body hbody
      rw [functions_foldNames, lowerBodies] at hf
      obtain ⟨old, hold, rfl⟩ := List.mem_map.1 hf
      obtain ⟨body, hsome, rfl⟩ := Option.map_eq_some_iff.1 hbody
      exact (hm old hold body hsome).map fun _ => Instruction.lower_eq_ret_iff
  | restrict _ => exact hm.filter List.filter_sublist
  | strip => exact hm.filter List.filter_sublist

/-- An emission keeps bodies returning, in each of its edits. -/
theorem Returns.edit {options : CoverageOptions} {e : Edit} (he : options.Emits m e) :
    e.Keeps Returns := by
  intro m₁ m₂ hok h
  rcases he.runtime_or_defineVariable with rfl | ⟨v, rfl, -⟩
  · exact invariant_returns.declareFunction h hok
  · exact invariant_returns.defineVariable h hok

/-- Where every body ends in a return, no return is missed, whatever the references are. -/
theorem Returns.offence?_ne (h : m.Returns) (graph : ReferenceGraph) (function : String) :
    m.offence? graph ≠ some (.noTerminator function) := by
  intro hoffence
  rw [offence?, Option.or_eq_some_iff] at hoffence
  rcases hoffence with hdangling | ⟨-, hfunction⟩
  · obtain ⟨entry, -, hentry⟩ := List.exists_of_findSome?_eq_some hdangling
    obtain ⟨_, -, heq⟩ := Option.map_eq_some_iff.1 hentry
    cases heq
  · obtain ⟨f, hf, hoffence⟩ := List.exists_of_findSome?_eq_some hfunction
    rw [functionOffence?, Option.or_eq_some_iff] at hoffence
    rcases hoffence with hinstruction | ⟨-, hlast⟩
    · obtain ⟨i, -, hi⟩ := List.exists_of_findSome?_eq_some hinstruction
      unfold instructionOffence? at hi
      split at hi
      · split at hi <;> cases hi
      · cases hi
    · cases hbody : f.body with
      | none => simp [hbody] at hlast
      | some body => simp [hbody, (h f hf body hbody).last] at hlast

end Module

/-- The wording of an offence tells whether it is a missing return. -/
theorem Offence.message_eq_noTerminator {offence : Offence} {function : String}
    (h : offence.message = (noTerminator function).message) :
    ∃ function', offence = noTerminator function' := by
  -- The three wordings differ in their first character.
  have hfirst : ∀ {head rest : String} {c : Char}, head.toList.head? = some c →
      (head ++ rest).toList.head? = some c := fun hhead => by
    rw [String.toList_append, List.head?_append, hhead, Option.some_or]
  have hmissing : (noTerminator function).message.toList.head? = some 'e' := hfirst (hfirst rfl)
  rw [← h] at hmissing
  cases offence with
  | undefinedSymbol symbol target =>
      have hdangling : (undefinedSymbol symbol target).message.toList.head?
          = "`".toList.head? := hfirst (hfirst (hfirst (hfirst rfl)))
      cases hmissing.symm.trans hdangling
  | notIntrinsic function callee =>
      have hcall : (notIntrinsic function callee).message.toList.head? = some 'i' :=
        hfirst (hfirst (hfirst (hfirst rfl)))
      cases hmissing.symm.trans hcall
  | noTerminator function' => exact ⟨function', rfl⟩

/-- Where every body ends in a return, no pass fails for want of one. -/
theorem Module.Returns.effectOf_ne {m : Module} (h : m.Returns) (passes : List Pass)
    (function : String) :
    effectOf passes m ≠ .error (.verification (Offence.noTerminator function).message) := by
  intro herror
  obtain ⟨before, m', pass, hbefore, hpass⟩ := exists_of_effectOf_error herror
  have hm' : m'.Returns :=
    keeps_of_steps (fun _ _ hstep => hstep.returns) (steps_of_effectOf hbefore) h
  rcases Pass.effect_error hpass with ⟨_, heq⟩ | ⟨offence, hoffence, heq⟩
  · cases heq
  · obtain ⟨function', rfl⟩ :=
      Offence.message_eq_noTerminator (PipelineError.verification.inj heq).symm
    exact hm'.offence?_ne _ _ hoffence

/-! ### Operations and runs -/

/-- **A task keeps bodies returning**, whether it succeeds or not. -/
theorem Task.returns_perform (task : Task) {s : Session} (h : s.module.Returns) :
    (task.perform s).module.Returns := by
  cases task with
  | operation operation => exact operation.invariant_perform Module.invariant_returns h
  | putOwned v owner => exact h.congr Module.functions_putOwned
  | run compress config =>
      exact Action.runWith_keeps (fun _ _ hstep => hstep.returns)
        (fun _ _ _ _ he => Module.Returns.edit he) h

/-- **Every body has one return, at its end**, wherever operations and runs lead from a new module.
So neither a look through the module, in whatever order references are looked through, nor any
further pipeline or run finds a return missing. -/
theorem returns_performAll (name : String) (tasks : List Task) :
    let s := performAll tasks (.start name)
    (∀ f ∈ s.module.functions, ∀ body, f.body = some body →
      body.count .ret = 1 ∧ body.getLast? = some .ret) ∧
    (∀ graph function, s.module.offence? graph ≠ some (.noTerminator function)) ∧
    (∀ (pipeline : Pipeline) (function : String) (s' : Session),
      pipeline.run s ≠ .error (.verification (Offence.noTerminator function).message) s') ∧
    ∀ (compress : Bytes → Bytes) (config : RunConfig) (function : String) (s' : Session),
      Action.runWith compress .full config s
        ≠ .error (.pipeline (.verification (Offence.noTerminator function).message)) s' := by
  intro s
  have h : s.module.Returns :=
    performAll_keeps (P := (·.module.Returns)) (fun task _ _ hs => task.returns_perform hs) nofun
  refine ⟨fun f hf body hbody => ?_, h.offence?_ne, fun pipeline function s' hrun => ?_,
    fun compress config function s' hrun => ?_⟩
  · exact ⟨(h f hf body hbody).count, (h f hf body hbody).last⟩
  · exact h.effectOf_ne _ _ (Pipeline.effectOf_of_run_error hrun)
  · cases hbuild : config.pipeline with
    | error e =>
        obtain ⟨log, hrun'⟩ := Action.runWith_of_build_error hbuild s
        obtain ⟨heq, -⟩ := EStateM.Result.error.inj (hrun'.symm.trans hrun)
        cases heq
        cases Pipeline.isConstruction_of_parse (RunConfig.pipeline_eq_error_iff.1 hbuild)
    | ok pipeline =>
        rcases Action.passes_error_or_coverage_of_run hbuild hrun with ⟨e, heffect, heq⟩ | ⟨e, heq⟩
        · cases heq
          exact h.effectOf_ne _ _ heffect
        · cases heq

/-- Work in which several things fail: an intrinsic is given a body, an increment is sent through
something that is no intrinsic between two that are not, and a call goes to a function that is not
there. -/
def falteringProgram : List Task :=
  [.declareIntrinsic "llvm.f", .build (.addFunction "llvm.f" .internalLinkage),
    .build (.addFunction "main" .externalLinkage), .build (.addCall "main" "llvm.f"),
    .prepare "main" 2, .insert "main" [(Symbol.incrementIntrinsic, ⟨"__profn_main", 7, 2, 0⟩),
      ("main", ⟨"__profn_main", 7, 2, 1⟩), (Symbol.incrementIntrinsic, ⟨"__profn_main", 7, 2, 1⟩)],
    .build (.addCall "main" "gone")].map .operation

/-- The bodies that it leads to. -/
theorem returns_falteringProgram :
    let s := performAll falteringProgram (.start "m")
    s.module.functions = [⟨"llvm.f", .internalLinkage, some [.ret], true⟩,
      ⟨"main", .externalLinkage,
        some [.call Symbol.incrementIntrinsic (some ⟨"__profn_main", 7, 2, 0⟩),
          .call Symbol.incrementIntrinsic (some ⟨"__profn_main", 7, 2, 1⟩), .call "llvm.f" none,
          .ret], false⟩,
      ⟨Symbol.incrementIntrinsic, .externalLinkage, none, true⟩] ∧
    (∀ f ∈ s.module.functions, ∀ body, f.body = some body →
      body.count .ret = 1 ∧ body.getLast? = some .ret) ∧
    ∀ (pipeline : Pipeline) (function : String) (s' : Session),
      pipeline.run s ≠ .error (.verification (Offence.noTerminator function).message) s' := by
  obtain ⟨hreturns, -, hpipeline, -⟩ := returns_performAll "m" falteringProgram
  exact ⟨by decide, hreturns, hpipeline⟩

end SourceCoverage
