import SourceCoverage.Proofs.Building
import SourceCoverage.Proofs.Pipeline.Passage

/-!
# Passes That Keep Modules Well Formed

Every pass but lowering only deletes. A deleted definition is one that nothing alive refers to, and
a deleted declaration one that nothing refers to at all, so that no reference is left dangling; and
since functions that are left are left as they are, their increments still call intrinsics and
their bodies still end in returns. So no such pass fails on a well formed module without ambiguous
names, and each leads to one again.

## Main results

* `Module.verifies_iff`: verification succeeds exactly if it finds no offence.
* `Module.WellFormed.effect`, `Module.WellFormed.effectOf`: one deleting pass, and a run of them.
* `Pipeline.run_wellFormed`: a pipeline without lowering passes.
-/

namespace SourceCoverage

namespace Module

variable {m : Module}

/-! ### Verification -/

/-- Verification succeeds on the module. -/
def Verifies (m : Module) : Prop := ∃ s, PassAction.verify { module := m } = .ok () s

/-- **Verification succeeds exactly if it finds no offence.** -/
theorem verifies_iff : m.Verifies ↔ m.offence? m.referenceGraph = none := by
  let s : PassState := { module := m }
  have hgraph := PassAction.referenceGraph_run (s := s) (.void _)
  rw [Verifies, PassAction.verify, bind_of_ok hgraph, PassAction.getModule_bind]
  constructor
  · rintro ⟨s', hrun⟩
    cases hoffence : m.offence? m.referenceGraph with
    | none => rfl
    | some offence =>
        rw [show s.module = m from rfl, hoffence] at hrun
        cases hrun
  · intro hnone
    rw [show s.module = m from rfl, hnone]
    exact ⟨_, rfl⟩

/-- Where names are not ambiguous, verification succeeds exactly on well formed modules. -/
theorem Unambiguous.verifies_iff (h : m.Unambiguous) : m.Verifies ↔ m.WellFormed :=
  Module.verifies_iff.trans (offence?_eq_none_iff h)

/-- Verification succeeds on well formed modules, ambiguous names or not. -/
theorem WellFormed.verifies (h : m.WellFormed) : m.Verifies :=
  Module.verifies_iff.2 h.offence?_eq_none

/-! ### Intrinsics -/

/-- Where no two functions share a name, which names are those of intrinsics. -/
theorem hasIntrinsic_iff (h : m.functionNames.Nodup) {name : String} :
    m.hasIntrinsic name ↔ ∃ f ∈ m.functions, f.name = name ∧ f.isIntrinsic := by
  rw [hasIntrinsic, Option.any_eq_true]
  constructor
  · rintro ⟨f, hfind, hintrinsic⟩
    obtain ⟨hf, hname⟩ := (function?_eq_some_iff h).1 hfind
    exact ⟨f, hf, hname, hintrinsic⟩
  · rintro ⟨f, hf, hname, hintrinsic⟩
    exact ⟨f, (function?_eq_some_iff h).2 ⟨hf, hname⟩, hintrinsic⟩

/-- A call refers to its callee. -/
theorem callee_mem_references {f : Function} {callee : String} {increment : Option Increment}
    (hmem : .call callee increment ∈ f.instructions) : callee ∈ f.references := by
  refine List.mem_flatMap.2 ⟨_, hmem, ?_⟩
  cases increment with
  | none => exact List.mem_cons_self ..
  | some _ => exact List.mem_cons_self ..

/-! ### Deleting passes -/

namespace WellFormed

/-- **Without its dead symbols**, a well formed module is well formed: what is called by something
alive is alive. -/
theorem withoutDead (hm : m.WellFormed) (h : m.Unambiguous) : m.withoutDead.WellFormed where
  resolved := hm.resolved.withoutDead h
  intrinsic := by
    intro f hf callee increment hmem
    obtain ⟨hf, halive⟩ := (mem_functions_withoutDead h).1 hf
    obtain ⟨g, hg, hname, hintrinsic⟩ :=
      (hasIntrinsic_iff h.functions).1 (hm.intrinsic f hf callee increment hmem)
    -- The intrinsic is alive with its caller, and is the only function of its name.
    have hcallee : m.Alive callee := halive.needs (.body hf (callee_mem_references hmem))
    refine (hasIntrinsic_iff (h.restrict _).functions).2 ⟨g, ?_, hname, hintrinsic⟩
    exact (mem_functions_withoutDead h).2 ⟨hg, hname ▸ hcallee⟩
  terminated := by
    intro f hf body hbody
    exact hm.terminated f ((mem_functions_withoutDead h).1 hf).1 body hbody

/-- **Without the declarations that nothing refers to**, a well formed module is well formed. -/
theorem stripDeadPrototypes (hm : m.WellFormed) (h : m.Unambiguous) :
    m.stripDeadPrototypes.WellFormed where
  resolved := hm.resolved.stripDeadPrototypes
  intrinsic := by
    intro f hf callee increment hmem
    have hf := (mem_functions_stripDeadPrototypes.1 hf).1
    obtain ⟨g, hg, hname, hintrinsic⟩ :=
      (hasIntrinsic_iff h.functions).1 (hm.intrinsic f hf callee increment hmem)
    have hcallee : callee ∈ m.references :=
      mem_references_iff.2 (.inl ⟨f, hf, callee_mem_references hmem⟩)
    refine (hasIntrinsic_iff h.stripDeadPrototypes.functions).2 ⟨g, ?_, hname, hintrinsic⟩
    exact mem_functions_stripDeadPrototypes.2 ⟨hg, .inr (hname ▸ hcallee)⟩
  terminated := by
    intro f hf body hbody
    exact hm.terminated f (mem_functions_stripDeadPrototypes.1 hf).1 body hbody

/-- **A pass that does not lower** succeeds on a well formed module, and leads to one. -/
theorem effect (hm : m.WellFormed) (h : m.Unambiguous) {pass : Pass}
    (hpass : pass.lowering? = none) :
    ∃ m', pass.effect m = .ok m' ∧ m'.Unambiguous ∧ m'.WellFormed := by
  have hdelete : ∃ m', Except.ok (ε := PipelineError) m.withoutDead.stripDeadPrototypes = .ok m' ∧
      m'.Unambiguous ∧ m'.WellFormed :=
    ⟨_, rfl, (h.restrict _).stripDeadPrototypes,
      (hm.withoutDead h).stripDeadPrototypes (h.restrict _)⟩
  cases pass with
  | lowerIncrements lowering => cases hpass
  | removeDeadSymbols => exact ⟨_, rfl, h.restrict _, hm.withoutDead h⟩
  | stripDeadPrototypes => exact ⟨_, rfl, h.stripDeadPrototypes, hm.stripDeadPrototypes h⟩
  | verify =>
      refine ⟨m, ?_, h, hm⟩
      rw [Pass.effect, (offence?_eq_none_iff h).2 hm]
  | noOp => exact ⟨m, rfl, h, hm⟩
  | optimize level =>
      cases level with
      | O0 => exact ⟨m, rfl, h, hm⟩
      | O1 => exact hdelete
      | O2 => exact hdelete
      | O3 => exact hdelete
      | Os => exact hdelete
      | Oz => exact hdelete

/-- **A run of passes that do not lower** succeeds on a well formed module, and leads to one. -/
theorem effectOf (hm : m.WellFormed) (h : m.Unambiguous) {passes : List Pass}
    (hpasses : ∀ pass ∈ passes, pass.lowering? = none) :
    ∃ m', SourceCoverage.effectOf passes m = .ok m' ∧ m'.Unambiguous ∧ m'.WellFormed := by
  induction passes generalizing m with
  | nil => exact ⟨m, rfl, h, hm⟩
  | cons pass passes ih =>
      obtain ⟨hpass, hrest⟩ := List.forall_mem_cons.1 hpasses
      obtain ⟨m₁, heffect, h₁, hm₁⟩ := hm.effect h hpass
      obtain ⟨m₂, hrun, h₂, hm₂⟩ := ih hm₁ h₁ hrest
      refine ⟨m₂, ?_, h₂, hm₂⟩
      rw [SourceCoverage.effectOf, heffect]
      exact hrun

end WellFormed

end Module

/-- **A pipeline without lowering passes** succeeds on a module without ambiguous names that
verification accepts. Verification accepts what it leads to: every reference resolves, increments
are calls of intrinsics, and bodies end in returns. -/
theorem Pipeline.run_wellFormed {s : Session} (hnames : s.module.Unambiguous)
    (hverifies : s.module.Verifies) {passes : List Pass}
    (hpasses : ∀ pass ∈ passes, pass.lowering? = none) :
    ∃ s', Pipeline.run ⟨passes⟩ s = .ok () s' ∧ s'.module.Unambiguous ∧ s'.module.Verifies ∧
      s'.module.WellFormed := by
  have hwellFormed : s.module.WellFormed := hnames.verifies_iff.1 hverifies
  obtain ⟨m, heffect, hm, hmWellFormed⟩ := hwellFormed.effectOf hnames hpasses
  obtain ⟨s', hrun, rfl⟩ := (Pipeline.run_spec ⟨passes⟩ s).1 m heffect
  exact ⟨s', hrun, hm, hm.verifies_iff.2 hmWellFormed, hmWellFormed⟩

/-- A pipeline with every kind of pass but lowering, over a program with a function that nothing
needs. -/
theorem wellFormed_run_prunedProgram :
    (build prunedProgram (.start "m")).module.Unambiguous ∧
    (build prunedProgram (.start "m")).module.Verifies ∧
    ∃ s', Pipeline.run ⟨[.verify, .removeDeadSymbols, .noOp, .stripDeadPrototypes, .optimize .O0,
        .optimize .O2]⟩ (build prunedProgram (.start "m")) = .ok () s' ∧
      s'.module.Unambiguous ∧ s'.module.Verifies ∧ s'.module.WellFormed := by
  have hsteps : ∀ step ∈ prunedProgram, step.Unreserved := by decide
  obtain ⟨history, hfollows⟩ := follows_build (s := .start "m") (.empty "m") hsteps
  have hnames := hfollows.unambiguous
  have hverifies := hnames.verifies_iff.2 hfollows.wellFormed
  have hpasses : ∀ pass ∈ [Pass.verify, .removeDeadSymbols, .noOp, .stripDeadPrototypes,
      .optimize .O0, .optimize .O2], pass.lowering? = none := by decide
  exact ⟨hnames, hverifies, Pipeline.run_wellFormed hnames hverifies hpasses⟩

end SourceCoverage
