import SourceCoverage.Proofs.Interleaving
import SourceCoverage.Proofs.Lifetime
import SourceCoverage.Proofs.Module.Unambiguity

/-!
# Where Names Collide

Whatever is done to a new module, its global variables keep distinct names, and so do those of its
functions that cannot be intrinsics. Names are unambiguous, however, only as long as no operation
clashes: each operation looks for the symbols that its own checks know of, and some of them look in
one of the two name spaces only. On a module with unambiguous names, the operations that lead to one
with ambiguous names are exactly those that clash with a symbol which is there. A run may do so
where it lowers increments while a function has a name that lowering gives.

## Main results

* `Operation.unambiguous_perform_iff`: which operations keep names unambiguous.
* `Task.unambiguous_perform`: when a task does.
* `clashFree_stages`: programs under instrumentation never clash.
* `names_performAll`: the names of every module that tasks lead to.
-/

namespace SourceCoverage

/-! ### Operations that clash -/

/-- Whether an operation clashes with a symbol of the module that it starts from: one of its edits
does. -/
def Operation.Clashes (m : Module) (operation : Operation) : Prop :=
  ∃ e, operation.Makes m e ∧ e.Clashes m

namespace Edit

variable {m m' : Module} {e : Edit} {name : String}

/-- Edits only add: from ambiguous names they do not lead to unambiguous ones. -/
theorem unambiguous_of_apply (h : e.apply m = .ok m') (hm : m'.Unambiguous) : m.Unambiguous := by
  have hfunctions : m.functionNames.Sublist m'.functionNames := by
    rcases signatures_or_introduces h with hsame | ⟨f, -, rfl⟩
    · rw [Module.functionNames_eq, Module.functionNames_eq, hsame]
    · rw [Module.functionNames, Module.functionNames, List.map_append]
      exact List.sublist_append_left ..
  have hglobals : m.globalNames.Sublist m'.globalNames := by
    have hput : ∀ v, m.globalNames.Sublist (m.putVariable v).globalNames := by
      intro v
      rw [Module.globalNames_putVariable]
      split
      · exact List.Sublist.refl _
      · exact List.sublist_append_left ..
    rcases globals_or_put h with hsame | ⟨v, -, -, rfl⟩ | ⟨v, owner, -, rfl⟩
    · rw [Module.globalNames, Module.globalNames, hsame]
    · exact hput v
    · exact Module.globalNames_putOwned ▸ hput v
  exact ⟨hm.functions.sublist hfunctions, hm.globals.sublist hglobals, fun name hf hg =>
    hm.disjoint name (hfunctions.subset hf) (hglobals.subset hg)⟩

/-- So every edit keeps names ambiguous. -/
theorem keeps_ambiguous (e : Edit) : e.Keeps (¬·.Unambiguous) :=
  fun _ _ hok hm hm' => hm (unambiguous_of_apply hok hm')

/-- An intrinsic that was declared without a clash does not clash any more. -/
theorem not_clashes_declared (hm : m.Unambiguous) (h : (declareIntrinsic name).apply m = .ok m')
    (hnot : ¬(declareIntrinsic name).Clashes m) : ¬(declareIntrinsic name).Clashes m' := by
  rintro ⟨-, hintrinsic, -⟩
  have hnodup := ((unambiguous_iff hm h).2 hnot).functions
  obtain ⟨-, rfl⟩ := Module.declareIntrinsic_eq_ok_iff.1 h
  by_cases hhas : m.hasIntrinsic name
  · rw [if_pos hhas] at hintrinsic
    exact hintrinsic hhas
  · rw [if_neg hhas] at hintrinsic hnodup
    refine hintrinsic ((Module.hasIntrinsic_iff hnodup).2 ?_)
    exact ⟨_, List.mem_append_right _ (List.mem_singleton_self _), rfl, rfl⟩

/-- The declaration of an intrinsic does not come to clash by variables of other names, nor by
increments. -/
theorem not_clashes_declareIntrinsic (h : e.apply m = .ok m')
    (he : (∃ v, e = .defineVariable v ∧ v.name ≠ name) ∨
      ∃ cursor intrinsic increment, e = .insertIncrement cursor intrinsic increment)
    (hnot : ¬(declareIntrinsic name).Clashes m) : ¬(declareIntrinsic name).Clashes m' := by
  rintro ⟨hhead, hintrinsic, hmem⟩
  have hsignatures : m'.signatures = m.signatures := by
    rcases signatures_or_introduces h with hsame | ⟨f, hintroduces, -⟩
    · exact hsame
    · rcases he with ⟨v, rfl, -⟩ | ⟨_, _, _, rfl⟩ <;> cases hintroduces
  have hglobal : name ∈ m'.globalNames → name ∈ m.globalNames := by
    intro hname
    rcases he with ⟨v, rfl, hne⟩ | ⟨_, _, _, rfl⟩
    · rcases globals_or_put h with hsame | ⟨w, hw, -, rfl⟩ | ⟨_, _, hw, -⟩
      · rwa [Module.globalNames, ← hsame]
      · cases hw
        exact (Module.mem_globalNames_putVariable.1 hname).resolve_right hne.symm
      · cases hw
    · rwa [Module.globalNames, ← globals_eq h rfl]
  rw [Module.hasIntrinsic_eq, hsignatures, ← Module.hasIntrinsic_eq] at hintrinsic
  rw [Module.functionNames_eq, hsignatures, ← Module.functionNames_eq] at hmem
  exact hnot ⟨hhead, hintrinsic, hmem.imp_right hglobal⟩

end Edit

namespace Operation

variable {m₀ m m' : Module} {operation : Operation} {e e' : Edit} {name function : String}

/-- The edits by which a function is prepared either declare the increment intrinsic, or define a
variable of another name. -/
theorem declareIntrinsic_or_of_mem_preparation (h : e ∈ preparation function) :
    e = .declareIntrinsic Symbol.incrementIntrinsic ∨
      ∃ v, e = .defineVariable v ∧ v.name ≠ Symbol.incrementIntrinsic := by
  refine (List.mem_pair.1 h).imp_right fun heq => ⟨_, heq, fun hname => ?_⟩
  cases (OwnSymbol.name_inj (a := .nameVariable function) (b := .incrementIntrinsic)).1 hname

/-- Beside the declaration of an intrinsic, an operation only makes edits that have nothing to do
with its name. -/
theorem Makes.eq_declareIntrinsic_or (h : operation.Makes m₀ (.declareIntrinsic name))
    (he : operation.Makes m₀ e) : e = .declareIntrinsic name ∨
      (∃ v, e = .defineVariable v ∧ v.name ≠ name) ∨
      ∃ cursor intrinsic increment, e = .insertIncrement cursor intrinsic increment := by
  cases h with
  | instrument _ hdeclares =>
      obtain rfl : name = Symbol.incrementIntrinsic := by
        rcases declareIntrinsic_or_of_mem_preparation hdeclares with heq | ⟨_, heq, -⟩
        · exact Edit.declareIntrinsic.inj heq
        · cases heq
      cases he with
      | instrument _ he => exact (declareIntrinsic_or_of_mem_preparation he).imp_right .inl
      | count => exact .inr (.inr ⟨_, _, _, rfl⟩)
  | declareIntrinsic =>
      cases he
      exact .inl rfl
  | prepare _ hdeclares =>
      obtain rfl : name = Symbol.incrementIntrinsic := by
        rcases declareIntrinsic_or_of_mem_preparation hdeclares with heq | ⟨_, heq, -⟩
        · exact Edit.declareIntrinsic.inj heq
        · cases heq
      cases he with
      | prepare _ he => exact (declareIntrinsic_or_of_mem_preparation he).imp_right .inl

/-- A function is only introduced by the operation for it. -/
theorem Makes.eq_addFunction {linkage : Linkage}
    (h : operation.Makes m₀ (.addFunction name linkage)) :
    operation = .build (.addFunction name linkage) := by
  cases h with
  | addFunction => rfl
  | instrument _ he =>
      rcases declareIntrinsic_or_of_mem_preparation he with heq | ⟨_, heq, -⟩ <;> cases heq
  | prepare _ he =>
      rcases declareIntrinsic_or_of_mem_preparation he with heq | ⟨_, heq, -⟩ <;> cases heq

/-- No operation gives a variable an owner. -/
theorem not_makes_putOwned {v : Variable} {owner : String} :
    ¬operation.Makes m₀ (.putOwned v owner) := by
  intro h
  cases h with
  | instrument _ he =>
      rcases declareIntrinsic_or_of_mem_preparation he with heq | ⟨_, heq, -⟩ <;> cases heq
  | prepare _ he =>
      rcases declareIntrinsic_or_of_mem_preparation he with heq | ⟨_, heq, -⟩ <;> cases heq

/-- **The edits of an operation do not come to clash** by one another. -/
theorem Makes.not_clashes (he : operation.Makes m₀ e) (he' : operation.Makes m₀ e')
    (hm : m.Unambiguous) (hok : e.apply m = .ok m')
    (hnot : ∀ e, operation.Makes m₀ e → ¬e.Clashes m) : ¬e'.Clashes m' := by
  have hbefore := hnot e' he'
  cases e' with
  | addFunction own linkage =>
      obtain rfl := he'.eq_addFunction
      cases he
      rw [Edit.Clashes, Module.globalNames] at hbefore ⊢
      rwa [Edit.globals_eq hok rfl]
  | declareIntrinsic own =>
      rcases he'.eq_declareIntrinsic_or he with rfl | hother
      · exact Edit.not_clashes_declared hm hok hbefore
      · exact Edit.not_clashes_declareIntrinsic hok hother hbefore
  | putOwned v owner => exact absurd he' not_makes_putOwned
  | declareFunction _ => exact id
  | addCall _ _ => exact id
  | insertIncrement _ _ _ => exact id
  | defineVariable _ => exact id

/-- **An operation that does not clash** keeps names unambiguous. -/
theorem unambiguous_perform {s : Session} (hs : s.module.Unambiguous)
    (hnot : ¬operation.Clashes s.module) : (operation.perform s).module.Unambiguous := by
  let P : Module → Prop := fun m =>
    m.Unambiguous ∧ ∀ e, operation.Makes s.module e → ¬e.Clashes m
  have hkeeps : ∀ e, operation.Makes s.module e → e.Keeps P := by
    rintro e he m m' hok ⟨hm, hclashes⟩
    exact ⟨(Edit.unambiguous_iff hm hok).2 (hclashes e he),
      fun e' he' => he.not_clashes he' hm hok hclashes⟩
  exact (operation.perform_keeps hkeeps ⟨hs, fun e he hclash => hnot ⟨e, he, hclash⟩⟩).1

end Operation

namespace Action

variable {ε α β : Type} {P : Module → Prop} {s : Session}

/-- What an action ends with, another one that preserves it ends with as well. -/
theorem Preserves.after {action : Action ε α} {next : α → Action ε β}
    (h : P (endOf (action s)).module) (hnext : ∀ a, Preserves P (next a)) :
    P (endOf ((action >>= next) s)).module := by
  cases hrun : action s with
  | ok a s' =>
      rw [hrun] at h
      rw [bind_of_ok hrun]
      have hlast := hnext a s' h trivial
      cases hend : next a s' with
      | ok b s'' =>
          rw [hend] at hlast
          exact hlast.1
      | error e s'' =>
          rw [hend] at hlast
          exact hlast
  | error e s' =>
      rw [hrun] at h
      rw [bind_of_error hrun]
      exact h

/-- Declaring an intrinsic leads to ambiguous names if it clashes. -/
theorem ambiguous_declareIntrinsic {name : String} (hs : s.module.Unambiguous)
    (hclash : (Edit.declareIntrinsic name).Clashes s.module) :
    ¬(endOf (attempt (ε := CoverageError) (·.declareIntrinsic name) s)).module.Unambiguous := by
  obtain ⟨m, hok⟩ : ∃ m, s.module.declareIntrinsic name = .ok m :=
    ⟨_, Module.declareIntrinsic_eq_ok_iff.2 ⟨hclash.1, rfl⟩⟩
  have hrun : attempt (ε := CoverageError) (·.declareIntrinsic name) s
      = .ok () { s with module := m } := by
    rw [attempt]
    simp only [hok]
  rw [hrun]
  exact fun hafter =>
    (Edit.unambiguous_iff (e := .declareIntrinsic name) hs hok).1 hafter hclash

/-- Preparing a function leads to ambiguous names if the declaration of the increment intrinsic
clashes. -/
theorem ambiguous_prepare {function : String} (count : UInt32) (hs : s.module.Unambiguous)
    (hfunction : function ∈ s.module.functionNames)
    (hclash : (Edit.declareIntrinsic Symbol.incrementIntrinsic).Clashes s.module) :
    ¬(endOf (prepare function count s)).module.Unambiguous := by
  have hhas : s.module.hasFunction function := Module.hasFunction_iff.2 hfunction
  have hprepare : prepare function count s = (do
      declareIncrement
      defineName function
      return (⟨⟨function⟩, count⟩ : Instrumentation)) s := by
    rw [prepare, getModule_bind, if_neg (not_not.2 hhas)]
  have hname : Preserves (¬·.Unambiguous) (defineName function) :=
    preserves_defineVariable (Edit.keeps_ambiguous _)
  have hrest : Preserves (¬·.Unambiguous) (do
      defineName function
      return (⟨⟨function⟩, count⟩ : Instrumentation)) :=
    hname.bind fun _ => .pure _ fun _ _ _ => trivial
  rw [hprepare]
  refine Preserves.after (P := (¬·.Unambiguous)) ?_ fun _ => hrest
  exact ambiguous_declareIntrinsic hs hclash

end Action

/-- **An operation that clashes** leads from unambiguous names to ambiguous ones. -/
theorem Operation.ambiguous_perform {operation : Operation} {s : Session}
    (hs : s.module.Unambiguous) (hclash : operation.Clashes s.module) :
    ¬(operation.perform s).module.Unambiguous := by
  obtain ⟨e, hmakes, hclash⟩ := hclash
  cases e with
  | addFunction name linkage =>
      obtain rfl := hmakes.eq_addFunction
      exact fun hafter => (Edit.unambiguous_iff (e := .addFunction name linkage) hs rfl).1 hafter
        hclash
  | declareIntrinsic name =>
      cases hmakes with
      | declareIntrinsic => exact Action.ambiguous_declareIntrinsic hs hclash
      | @instrument function count _ hfunction hdeclares =>
          obtain rfl : name = Symbol.incrementIntrinsic := by
            rcases declareIntrinsic_or_of_mem_preparation hdeclares with heq | ⟨_, heq, -⟩
            · exact Edit.declareIntrinsic.inj heq
            · cases heq
          have hprepared := Action.ambiguous_prepare count hs hfunction hclash
          have hcounted : ¬(endOf (Action.instrument function count s)).module.Unambiguous :=
            Action.Preserves.after (P := (¬·.Unambiguous)) hprepared fun i =>
              Action.preserves_countAll function count fun _ _ => Edit.keeps_ambiguous _
          exact Action.Preserves.after (P := (¬·.Unambiguous)) hcounted fun _ =>
            .pure () fun _ _ _ => trivial
      | @prepare function count _ hfunction hdeclares =>
          obtain rfl : name = Symbol.incrementIntrinsic := by
            rcases declareIntrinsic_or_of_mem_preparation hdeclares with heq | ⟨_, heq, -⟩
            · exact Edit.declareIntrinsic.inj heq
            · cases heq
          have hprepared := Action.ambiguous_prepare count hs hfunction hclash
          exact Action.Preserves.after (P := (¬·.Unambiguous)) hprepared fun _ =>
            .pure () fun _ _ _ => trivial
  | putOwned v owner => exact absurd hmakes not_makes_putOwned
  | declareFunction _ => exact hclash.elim
  | addCall _ _ => exact hclash.elim
  | insertIncrement _ _ _ => exact hclash.elim
  | defineVariable _ => exact hclash.elim

/-- **Which operations keep names unambiguous**: those that do not clash. -/
theorem Operation.unambiguous_perform_iff {operation : Operation} {s : Session}
    (hs : s.module.Unambiguous) :
    (operation.perform s).module.Unambiguous ↔ ¬operation.Clashes s.module :=
  ⟨fun hafter hclash => ambiguous_perform hs hclash hafter, unambiguous_perform hs⟩

/-! ### Tasks that may clash -/

/-- Whether a task may clash: an operation does, a variable that is given an owner has the name of a
function, or a run finds increments to lower while a function has a name that lowering gives. -/
def Task.MayClash (s : Session) : Task → Prop
  | operation op => op.Clashes s.module
  | putOwned v _ => v.name ∈ s.module.functionNames
  | run _ _ => s.module.increments ≠ [] ∧
    ∃ name ∈ s.module.functionNames, Module.MadeByLowering name

/-- Whether none of several tasks may clash when its turn comes. -/
def ClashFree : List Task → Session → Prop
  | [], _ => True
  | task :: tasks, s => ¬task.MayClash s ∧ ClashFree tasks (task.perform s)

/-- The names of a function's variables, and that of the table of names, are not that of the entry
point of the runtime. -/
theorem Module.not_madeByLowering_profileRuntime :
    ¬MadeByLowering Symbol.profileRuntime := by
  rintro (htable | ⟨function, hmade⟩)
  · cases (OwnSymbol.name_inj (a := .profileRuntime) (b := .profileNames)).1 htable
  · exact not_mem_madeNames .profileRuntime nofun nofun function hmade

/-- Whether names are unambiguous, and lowering cannot change that. -/
structure Module.LowersSafely (m : Module) : Prop where
  unambiguous : m.Unambiguous
  unmade : m.increments ≠ [] → ∀ name ∈ m.functionNames, ¬MadeByLowering name

namespace Module.LowersSafely

variable {m m' : Module}

/-- Where there are fewer functions and fewer increments, lowering is as safe as it was. -/
theorem part (h : m.LowersSafely) (hunambiguous : m'.Unambiguous)
    (hincrements : m'.increments ⊆ m.increments)
    (hfunctions : ∀ name ∈ m'.functionNames, name ∈ m.functionNames ∨ ¬MadeByLowering name) :
    m'.LowersSafely := by
  refine ⟨hunambiguous, fun hsome name hname => ?_⟩
  have hbefore : m.increments ≠ [] := fun hnil =>
    hsome (List.subset_nil.1 (hnil ▸ hincrements))
  rcases hfunctions name hname with hold | hnew
  · exact h.unmade hbefore name hold
  · exact hnew

/-- A step of a pass. -/
theorem step (h : m.LowersSafely) (hstep : PassStep m m') : m'.LowersSafely :=
  h.part (hstep.unambiguous h.unambiguous h.unmade) hstep.increments_subset fun _ hname =>
    .inl (hstep.functionNames_sublist.subset hname)

/-- An edit of an emission, which introduces no function but the entry point of the runtime. -/
theorem emit (h : m.LowersSafely) {options : CoverageOptions} {m₀ : Module} {e : Edit}
    (he : options.Emits m₀ e) (hok : e.apply m = .ok m') : m'.LowersSafely := by
  refine h.part ((Edit.unambiguous_iff h.unambiguous hok).2 ?_)
    (e.increments_subset hok he.not_writes) fun name hname => ?_
  · rcases he.runtime_or_defineVariable with rfl | ⟨v, rfl, -⟩ <;> exact id
  · rcases e.signatures_or_introduces hok with hsame | ⟨f, hintroduces, rfl⟩
    · rw [functionNames_eq, hsame, ← functionNames_eq] at hname
      exact .inl hname
    · rw [functionNames, List.map_append] at hname
      refine (List.mem_append.1 hname).imp_right fun hnew => ?_
      obtain rfl := List.mem_singleton.1 hnew
      rcases he.runtime_or_defineVariable with rfl | ⟨v, rfl, -⟩
      · cases hintroduces
        exact not_madeByLowering_profileRuntime
      · cases hintroduces

end Module.LowersSafely

/-- **A task that may not clash** keeps names unambiguous. -/
theorem Task.unambiguous_perform {task : Task} {s : Session} (hs : s.module.Unambiguous)
    (hnot : ¬task.MayClash s) : (task.perform s).module.Unambiguous := by
  cases task with
  | operation op => exact Operation.unambiguous_perform hs hnot
  | putOwned v owner => exact (hs.putOwned_iff v owner).2 hnot
  | run compress config =>
      have hsafe : s.module.LowersSafely :=
        ⟨hs, fun hsome name hname hmade => hnot ⟨hsome, name, hname, hmade⟩⟩
      exact (Action.runWith_keeps (fun _ _ hstep hm => hm.step hstep)
        (fun _ _ _ _ he _ _ hok hm => hm.emit he hok) hsafe).unambiguous

/-- **A task keeps names distinct** that are to be distinct. -/
theorem Task.distinct_perform {s : Session} (hs : s.module.Distinct) (task : Task) :
    (task.perform s).module.Distinct :=
  task.perform_keeps (fun _ _ _ _ hok hm => Edit.distinct hok hm)
    (fun _ _ _ => Action.runWith_keeps (fun _ _ hstep hm => hstep.distinct hm)
      (fun _ _ _ _ _ _ _ hok hm => Edit.distinct hok hm) hs) hs

/-- **A task other than a run** keeps names unambiguous exactly if it may not clash. -/
theorem Task.unambiguous_perform_iff {task : Task} {s : Session} (hs : s.module.Unambiguous)
    (hrun : ∀ compress config, task ≠ .run compress config) :
    (task.perform s).module.Unambiguous ↔ ¬task.MayClash s := by
  cases task with
  | operation op => exact Operation.unambiguous_perform_iff hs
  | putOwned v owner => exact hs.putOwned_iff v owner
  | run compress config => exact absurd rfl (hrun compress config)

/-- Whether names are unambiguous before, between and after several tasks. -/
def UnambiguousThroughout (tasks : List Task) (s : Session) : Prop :=
  ∀ earlier, earlier <+: tasks → (performAll earlier s).module.Unambiguous

/-- Names are unambiguous throughout several tasks if they are so before the first one and
throughout the others. -/
theorem unambiguousThroughout_cons_iff {task : Task} {tasks : List Task} {s : Session} :
    UnambiguousThroughout (task :: tasks) s ↔
      s.module.Unambiguous ∧ UnambiguousThroughout tasks (task.perform s) := by
  constructor
  · intro h
    exact ⟨h [] (List.nil_prefix ..), fun earlier hprefix =>
      h (task :: earlier) (List.cons_prefix_cons.2 ⟨rfl, hprefix⟩)⟩
  · rintro ⟨hs, hrest⟩ earlier hprefix
    rcases List.prefix_cons_iff.1 hprefix with rfl | ⟨others, rfl, hothers⟩
    · exact hs
    · exact hrest others hothers

/-- Names are unambiguous throughout several tasks if none of them may clash. -/
theorem unambiguousThroughout_of_clashFree {tasks : List Task} {s : Session}
    (hs : s.module.Unambiguous) (hfree : ClashFree tasks s) : UnambiguousThroughout tasks s := by
  induction tasks generalizing s with
  | nil =>
      intro earlier hprefix
      obtain rfl := List.prefix_nil.1 hprefix
      exact hs
  | cons task tasks ih =>
      obtain ⟨hnot, hrest⟩ := hfree
      exact unambiguousThroughout_cons_iff.2 ⟨hs, ih (task.unambiguous_perform hs hnot) hrest⟩

/-- Without runs, none of several tasks may clash if names are unambiguous throughout them. -/
theorem clashFree_of_unambiguousThroughout {tasks : List Task} {s : Session}
    (hruns : ∀ compress config, .run compress config ∉ tasks) (h : UnambiguousThroughout tasks s) :
    ClashFree tasks s := by
  induction tasks generalizing s with
  | nil => trivial
  | cons task tasks ih =>
      obtain ⟨hs, hrest⟩ := unambiguousThroughout_cons_iff.1 h
      have hafter : (task.perform s).module.Unambiguous := hrest [] (List.nil_prefix ..)
      have htask : ∀ compress config, task ≠ .run compress config := by
        rintro compress config rfl
        exact hruns compress config (List.mem_cons_self ..)
      have hothers : ∀ compress config, .run compress config ∉ tasks := fun compress config hmem =>
        hruns compress config (List.mem_cons_of_mem _ hmem)
      exact ⟨(task.unambiguous_perform_iff hs htask).1 hafter, ih hothers hrest⟩

/-! ### Programs under instrumentation -/

namespace Module.Follows

variable {m : Module} {history : History}

/-- The increment intrinsic is declared without a clash. -/
theorem not_clashes_declareIncrement (h : m.Follows history) :
    ¬(Edit.declareIntrinsic Symbol.incrementIntrinsic).Clashes m := by
  rintro ⟨-, hnot, hfunction | hglobal⟩
  · exact hnot (h.hasIntrinsic hfunction)
  · exact h.not_mem_globalNames .incrementIntrinsic (fun _ => id) hglobal

/-- A building step that gives unreserved names does not clash. -/
theorem not_clashes_build (h : m.Follows history) {step : BuildStep} (hstep : step.Unreserved) :
    ¬(Operation.build step).Clashes m := by
  rintro ⟨e, hmakes, hclash⟩
  cases hmakes with
  | addFunction => exact h.not_mem_globalNames_of_unreserved (hstep _ (.head _)) hclash
  | declareFunction => exact hclash
  | addCall => exact hclash
  | instrument _ he =>
      rcases Operation.declareIntrinsic_or_of_mem_preparation he with rfl | ⟨v, rfl, -⟩
      · exact h.not_clashes_declareIncrement hclash
      · exact hclash
  | count => exact hclash

/-- No function has a name that lowering gives. -/
theorem not_madeByLowering (h : m.Follows history) {name : String}
    (hname : name ∈ m.functionNames) : ¬MadeByLowering name := by
  rintro (rfl | ⟨function, hmade⟩)
  · exact h.not_mem_functionNames .profileNames nofun nofun hname
  · rcases List.mem_pair.1 hmade with rfl | rfl
    · exact h.not_mem_functionNames (.counters function) nofun nofun hname
    · exact h.not_mem_functionNames (.profileData function) nofun nofun hname

end Module.Follows

/-- **Building and running in turn never clashes**, as long as steps give unreserved names only. -/
theorem clashFree_stages {stages : List Stage} {s : Session} {history : History}
    (h : s.module.Follows history) (hstages : ∀ stage ∈ stages, stage.Unreserved) :
    ClashFree (stages.map (·.task)) s := by
  induction stages generalizing s history with
  | nil => trivial
  | cons stage stages ih =>
      obtain ⟨hstage, hrest⟩ := List.forall_mem_cons.1 hstages
      obtain ⟨history', hfollows, -⟩ := Stage.follows h hstage fun _ => rfl
      refine ⟨?_, ih hfollows hrest⟩
      cases stage with
      | build step =>
          have hstep : step.Unreserved := hstage
          exact h.not_clashes_build hstep
      | run compress config =>
          rintro ⟨-, name, hname, hmade⟩
          exact h.not_madeByLowering hname hmade

/-! ### All tasks -/

/-- **The names of every module that tasks lead to** from a new one: those of global variables are
distinct, and those of functions that cannot be intrinsics. Names are unambiguous throughout if none
of the tasks may clash; and without runs only then. -/
theorem names_performAll (name : String) (tasks : List Task) :
    (performAll tasks (.start name)).module.Distinct ∧
    (ClashFree tasks (.start name) → UnambiguousThroughout tasks (.start name)) ∧
    ((∀ compress config, .run compress config ∉ tasks) →
      UnambiguousThroughout tasks (.start name) → ClashFree tasks (.start name)) :=
  ⟨performAll_keeps (P := (·.module.Distinct)) (fun task _ _ hs => task.distinct_perform hs)
      ⟨List.nodup_nil, List.nodup_nil⟩,
    unambiguousThroughout_of_clashFree ⟨List.nodup_nil, List.nodup_nil, nofun⟩,
    clashFree_of_unambiguousThroughout⟩

/-- A program that is run with coverage in between, and goes on with a function that is called. -/
def resumedProgram : List Stage :=
  [.build (.addFunction "f" .externalLinkage), .build (.instrument "f" 2),
    .run Zlib.compress ⟨"globaldce", some ⟨"a.c", true, true, .elf⟩⟩,
    .build (.addFunction "g" .internalLinkage), .build (.addCall "f" "g"),
    .build (.instrument "g" 1), .run Zlib.compress ⟨"verify", none⟩]

/-- None of its stages may clash, so that its names are unambiguous throughout. -/
theorem names_resumedProgram :
    let tasks := resumedProgram.map (·.task)
    ClashFree tasks (.start "m") ∧ (performAll tasks (.start "m")).module.Distinct ∧
      UnambiguousThroughout tasks (.start "m") := by
  intro tasks
  have hfree : ClashFree tasks (.start "m") := clashFree_stages (.empty "m") (by decide)
  obtain ⟨hdistinct, hunambiguous, -⟩ := names_performAll "m" tasks
  exact ⟨hfree, hdistinct, hunambiguous hfree⟩

/-- A variable is defined, and then a function of its name. -/
def overlappingProgram : List Task :=
  [.operation (.defineVariable { name := "x", value := .u32 1 }),
    .operation (.build (.addFunction "x" .externalLinkage))]

/-- So a function and a global variable share their name. -/
theorem not_unambiguous_overlappingProgram :
    ¬(performAll overlappingProgram (.start "m")).module.Unambiguous := by
  intro h
  exact h.disjoint "x" (by decide) (by decide)

end SourceCoverage
