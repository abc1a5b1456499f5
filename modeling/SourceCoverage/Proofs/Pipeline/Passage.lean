import SourceCoverage.Proofs.Pipeline.Deletion
import SourceCoverage.Proofs.Pipeline.Lowering
import SourceCoverage.Proofs.Pipeline.Verification

/-!
# Passes and History

No pass fails on a module that follows a history, and each leads to a module that follows one:
lowering turns what is pending into what is lowered, deletion forgets functions, and nothing else
leaves a trace. Of a whole run it matters whether there is a lowering pass in it, and which one is
the first, since there is nothing left to lower for the others.

## Main results

* `Module.functions_lower`: what lowering does to the functions of any module.
* `Module.exists_of_effectOf`: no pass makes functions or takes bodies away.
* `Module.Follows.effect`: one pass in the history.
* `Module.Follows.effectOf`: a run of passes in the history.
-/

namespace SourceCoverage

/-- How a pass lowers increments, if it does. -/
def Pass.lowering? : Pass → Option Lowering
  | .lowerIncrements lowering => some lowering
  | _ => none

/-- How a run of passes lowers increments: as its first lowering pass does. -/
def loweringOf (passes : List Pass) : Option Lowering := passes.findSome? (·.lowering?)

namespace Shape

variable {shape : Shape}

/-- The shape with its increments lowered, if they are to be. -/
def lowerIf (lowering : Option Lowering) (shape : Shape) : Shape :=
  match lowering with
  | some lowering => shape.lower lowering.atomic
  | none => shape

/-- What is lowered once needs no lowering any more. -/
theorem lowerIf_lowerIf {first second : Option Lowering} :
    (shape.lowerIf first).lowerIf second = shape.lowerIf (first.or second) := by
  cases first with
  | none => rfl
  | some lowering =>
      cases second with
      | none => rfl
      | some _ => exact lower_of_pending_eq_nil rfl _

end Shape

namespace Module

variable {m m' : Module} {history : History}

/-! ### Functions under lowering -/

/-- An instruction is left alone where no names are known. -/
theorem lower_nil {lowering : Lowering} (i : Instruction) : i.lower lowering [] = i := by
  rw [Instruction.lower]
  split
  · rfl
  · rfl

/-- Making what the first increments demand leaves the functions alone. -/
theorem functions_profileAll {uses : List Increment} {profiled : List ProfiledName}
    (hok : m.profileAll uses = .ok (m', profiled)) : m'.functions = m.functions := by
  induction uses generalizing m profiled with
  | nil =>
      obtain ⟨rfl, -⟩ := Prod.mk.inj (Except.ok.inj hok)
      rfl
  | cons use uses ih =>
      obtain ⟨data, others, -, hrest, -⟩ := profileAll_cons_eq_ok_iff.1 hok
      rw [ih hrest, profile, functions_putOwned, functions_putOwned]

/-- The names that are profiled are those of the variables of the uses. -/
theorem nameVariables_profileAll {uses : List Increment} {profiled : List ProfiledName}
    (hok : m.profileAll uses = .ok (m', profiled)) :
    profiled.map (·.nameVariable) = uses.map (·.nameVariable) := by
  induction uses generalizing m profiled with
  | nil =>
      obtain ⟨-, rfl⟩ := Prod.mk.inj (Except.ok.inj hok)
      rfl
  | cons use uses ih =>
      obtain ⟨data, others, -, hrest, rfl⟩ := profileAll_cons_eq_ok_iff.1 hok
      rw [List.map_cons, List.map_cons, ih hrest]

/-- **Lowering changes bodies instruction by instruction**, and nothing else about functions. -/
theorem functions_lower {lowering : Lowering} (hok : m.lower lowering = .ok m') :
    ∃ profiled, m'.functions = m.functions.map fun f =>
      { f with body := f.body.map (·.map (·.lower lowering profiled)) } := by
  rw [lower] at hok
  split at hok
  · obtain rfl := Except.ok.inj hok
    refine ⟨[], ?_⟩
    have hid : ∀ f ∈ m.functions,
        { f with body := f.body.map (·.map (·.lower lowering [])) } = id f := by
      intro f _
      simp [lower_nil]
    rw [List.map_congr_left hid, List.map_id]
  · obtain ⟨⟨m₁, profiled⟩, hall, rfl⟩ := map_eq_ok_iff.1 hok
    refine ⟨profiled, ?_⟩
    rw [functions_foldNames, lowerBodies, functions_profileAll hall]

/-- Lowering defines nothing and undefines nothing. -/
theorem defines_lower {lowering : Lowering} (hok : m.lower lowering = .ok m') {name : String} :
    m'.Defines name ↔ m.Defines name := by
  obtain ⟨profiled, hfunctions⟩ := functions_lower hok
  rw [Defines, hfunctions, Defines]
  constructor
  · rintro ⟨_, hmem, hname, hbody⟩
    obtain ⟨f, hf, rfl⟩ := List.mem_map.1 hmem
    exact ⟨f, hf, hname, by simpa using hbody⟩
  · rintro ⟨f, hf, hname, hbody⟩
    exact ⟨_, List.mem_map_of_mem hf, hname, by simpa using hbody⟩

/-- **No pass makes functions or takes bodies away**: what is left was there before, with a body
exactly if it has one now. -/
theorem exists_of_effect {pass : Pass} (hok : pass.effect m = .ok m') {f' : Function}
    (hf' : f' ∈ m'.functions) :
    ∃ f ∈ m.functions, f.name = f'.name ∧ f.body.isSome = f'.body.isSome := by
  have hdelete (hok : Except.ok (ε := PipelineError) m.withoutDead.stripDeadPrototypes = .ok m') :
      f' ∈ m.functions := by
    obtain rfl := Except.ok.inj hok
    exact (List.mem_filter.1 (List.mem_filter.1 hf').1).1
  cases pass with
  | lowerIncrements lowering =>
      obtain ⟨profiled, hfunctions⟩ := functions_lower hok
      rw [hfunctions] at hf'
      obtain ⟨f, hf, rfl⟩ := List.mem_map.1 hf'
      exact ⟨f, hf, rfl, by simp⟩
  | removeDeadSymbols =>
      obtain rfl := Except.ok.inj hok
      exact ⟨f', (List.mem_filter.1 hf').1, rfl, rfl⟩
  | stripDeadPrototypes =>
      obtain rfl := Except.ok.inj hok
      exact ⟨f', (List.mem_filter.1 hf').1, rfl, rfl⟩
  | verify =>
      rw [Pass.effect] at hok
      split at hok
      · exact ⟨f', Except.ok.inj hok ▸ hf', rfl, rfl⟩
      · cases hok
  | noOp => exact ⟨f', Except.ok.inj hok ▸ hf', rfl, rfl⟩
  | optimize level =>
      cases level with
      | O0 => exact ⟨f', Except.ok.inj hok ▸ hf', rfl, rfl⟩
      | O1 => exact ⟨f', hdelete hok, rfl, rfl⟩
      | O2 => exact ⟨f', hdelete hok, rfl, rfl⟩
      | O3 => exact ⟨f', hdelete hok, rfl, rfl⟩
      | Os => exact ⟨f', hdelete hok, rfl, rfl⟩
      | Oz => exact ⟨f', hdelete hok, rfl, rfl⟩

/-- A run of passes makes no functions either. -/
theorem exists_of_effectOf {passes : List Pass} (hok : effectOf passes m = .ok m') {f' : Function}
    (hf' : f' ∈ m'.functions) :
    ∃ f ∈ m.functions, f.name = f'.name ∧ f.body.isSome = f'.body.isSome := by
  induction passes generalizing m with
  | nil => exact ⟨f', Except.ok.inj hok ▸ hf', rfl, rfl⟩
  | cons pass passes ih =>
      rw [effectOf] at hok
      cases heffect : pass.effect m with
      | error e =>
          rw [heffect] at hok
          cases hok
      | ok m₁ =>
          rw [heffect] at hok
          obtain ⟨f₁, hf₁, hname₁, hbody₁⟩ := ih hok
          obtain ⟨f, hf, hname, hbody⟩ := exists_of_effect heffect hf₁
          exact ⟨f, hf, hname.trans hname₁, hbody.trans hbody₁⟩

/-- A function that was defined and is left is still defined. -/
theorem Unambiguous.defines_of_effectOf (h : m.Unambiguous) {passes : List Pass}
    (hok : effectOf passes m = .ok m') {name : String} (hdefines : m.Defines name)
    (hleft : name ∈ m'.functionNames) : m'.Defines name := by
  obtain ⟨f', hf', rfl⟩ := List.mem_map.1 hleft
  obtain ⟨f, hf, hname, hbody⟩ := exists_of_effectOf hok hf'
  obtain ⟨g, hg, hgname, hgbody⟩ := hdefines
  have hsame : f = g := List.inj_on_of_nodup_map h.functions hf hg (hname.trans hgname.symm)
  exact ⟨f', hf', rfl, hbody ▸ hsame ▸ hgbody⟩

namespace Follows

/-! ### Passes -/

/-- **A pass in the history.** -/
theorem effect (h : m.Follows history) (pass : Pass) :
    ∃ m' history', pass.effect m = .ok m' ∧ m'.Follows history' ∧ ∀ name, m'.Defines name →
      m.Defines name ∧ history' name = (history name).lowerIf pass.lowering? := by
  have hdead : ∀ name, m.withoutDead.Defines name →
      m.Defines name ∧ history.restrict m.withoutDead name = history name := fun name hdefines =>
    ⟨(h.defines_withoutDead.1 hdefines).1, if_pos hdefines⟩
  have hboth : ∃ m' history', Except.ok (ε := PipelineError) m.withoutDead.stripDeadPrototypes
      = .ok m' ∧ m'.Follows history' ∧ ∀ name, m'.Defines name →
        m.Defines name ∧ history' name = history name :=
    ⟨_, _, rfl, h.withoutDead.stripDeadPrototypes, fun name hdefines =>
      hdead name (defines_stripDeadPrototypes.1 hdefines)⟩
  have hidle : ∃ m' history', Except.ok (ε := PipelineError) m = .ok m' ∧ m'.Follows history' ∧
      ∀ name, m'.Defines name → m.Defines name ∧ history' name = history name :=
    ⟨m, history, rfl, h, fun _ hdefines => ⟨hdefines, rfl⟩⟩
  cases pass with
  | lowerIncrements lowering =>
      obtain ⟨m', hlower, hfollows⟩ := h.lower lowering
      exact ⟨m', _, hlower, hfollows, fun name hdefines =>
        ⟨(defines_lower hlower).1 hdefines, rfl⟩⟩
  | removeDeadSymbols => exact ⟨_, _, rfl, h.withoutDead, hdead⟩
  | stripDeadPrototypes =>
      exact ⟨_, _, rfl, h.stripDeadPrototypes, fun name hdefines =>
        ⟨defines_stripDeadPrototypes.1 hdefines, rfl⟩⟩
  | verify =>
      refine ⟨m, history, ?_, h, fun _ hdefines => ⟨hdefines, rfl⟩⟩
      rw [Pass.effect, (offence?_eq_none_iff h.unambiguous).2 h.wellFormed]
  | noOp => exact hidle
  | optimize level =>
      cases level with
      | O0 => exact hidle
      | O1 => exact hboth
      | O2 => exact hboth
      | O3 => exact hboth
      | Os => exact hboth
      | Oz => exact hboth

/-- **A run of passes in the history.** It succeeds; the functions that are defined afterwards
were defined before, with a shape that lowering has changed if there is a lowering pass. -/
theorem effectOf (h : m.Follows history) (passes : List Pass) :
    ∃ m' history', effectOf passes m = .ok m' ∧ m'.Follows history' ∧ ∀ name, m'.Defines name →
      m.Defines name ∧ history' name = (history name).lowerIf (loweringOf passes) := by
  induction passes generalizing m history with
  | nil => exact ⟨m, history, rfl, h, fun _ hdefines => ⟨hdefines, rfl⟩⟩
  | cons pass passes ih =>
      obtain ⟨m₁, history₁, heffect, hfollows₁, hshape₁⟩ := h.effect pass
      obtain ⟨m₂, history₂, hrest, hfollows₂, hshape₂⟩ := ih hfollows₁
      refine ⟨m₂, history₂, ?_, hfollows₂, fun name hdefines => ?_⟩
      · rw [SourceCoverage.effectOf, heffect]
        exact hrest
      · obtain ⟨hdefines₁, heq₂⟩ := hshape₂ name hdefines
        obtain ⟨hdefines₀, heq₁⟩ := hshape₁ name hdefines₁
        refine ⟨hdefines₀, ?_⟩
        rw [heq₂, heq₁, Shape.lowerIf_lowerIf, loweringOf, loweringOf, List.findSome?_cons]
        cases pass.lowering? <;> rfl

end Follows

end Module

end SourceCoverage
