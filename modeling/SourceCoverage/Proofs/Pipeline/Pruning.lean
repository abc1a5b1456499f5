import SourceCoverage.Proofs.Pipeline.Steps

/-!
# What Is Left for Passes After Lowering

A module without increments gives a pass nothing to do but to delete, and lowering leaves none, so
that only the first of all passes of a run with coverage does anything else. What the others do is
said by the *deletions* that they make, in order: of dead symbols, and of declarations that nothing
refers to.

## Main results

* `effectOf_eq_deletions`: passes as deletions.
* `effectOf_lowerIncrements`: passes behind lowering as deletions from the lowered module.
* `Module.deleteAll_keeps`: what both deletions keep is kept.
-/

namespace SourceCoverage

/-- A deletion that a pass can make. -/
inductive Deletion where
  | symbols
  | prototypes
  deriving Repr, DecidableEq

/-- The deletions that a pass makes, in order. -/
def Pass.deletions : Pass → List Deletion
  | removeDeadSymbols => [.symbols]
  | stripDeadPrototypes => [.prototypes]
  | optimize .O0 => []
  | optimize _ => [.symbols, .prototypes]
  | _ => []

namespace Module

variable {m m' : Module}

/-- The module after a deletion. -/
def delete (m : Module) : Deletion → Module
  | .symbols => m.withoutDead
  | .prototypes => m.stripDeadPrototypes

/-- The module after several deletions. -/
def deleteAll (m : Module) (deletions : List Deletion) : Module := deletions.foldl delete m

/-- Deletions in a row. -/
theorem deleteAll_append (m : Module) (first second : List Deletion) :
    m.deleteAll (first ++ second) = (m.deleteAll first).deleteAll second :=
  List.foldl_append ..

/-- A deletion is a step of a pass. -/
theorem step_delete (m : Module) (deletion : Deletion) : PassStep m (m.delete deletion) := by
  cases deletion with
  | symbols => exact .restrict (roots_subset_liveSymbols _)
  | prototypes => exact .strip m

/-- **What each deletion keeps** is kept by several ones. -/
theorem deleteAll_keeps {P : Module → Prop} (hkeeps : ∀ m deletion, P m → P (m.delete deletion))
    (hm : P m) (deletions : List Deletion) : P (m.deleteAll deletions) := by
  induction deletions generalizing m with
  | nil => exact hm
  | cons deletion deletions ih => exact ih (hkeeps m deletion hm)

/-- Deletions make no increments. -/
theorem increments_deleteAll (h : m.increments = []) (deletions : List Deletion) :
    (m.deleteAll deletions).increments = [] :=
  deleteAll_keeps (P := (·.increments = [])) (fun m deletion hnone =>
    List.subset_nil.1 (hnone ▸ (m.step_delete deletion).increments_subset)) h deletions

end Module

/-- **A pass only deletes** where there are no increments. -/
theorem Pass.effect_eq_deletions {pass : Pass} {m m' : Module} (h : m.increments = [])
    (hok : pass.effect m = .ok m') : m' = m.deleteAll pass.deletions := by
  cases pass with
  | lowerIncrements lowering =>
      rw [effect, Module.lower, if_pos h] at hok
      exact (Except.ok.inj hok).symm
  | removeDeadSymbols => exact (Except.ok.inj hok).symm
  | stripDeadPrototypes => exact (Except.ok.inj hok).symm
  | optimize level => cases level <;> exact (Except.ok.inj hok).symm
  | verify =>
      rw [effect] at hok
      split at hok
      · exact (Except.ok.inj hok).symm
      · cases hok
  | noOp => exact (Except.ok.inj hok).symm

/-- **Passes only delete** where there are no increments. -/
theorem effectOf_eq_deletions {passes : List Pass} {m m' : Module} (h : m.increments = [])
    (hok : effectOf passes m = .ok m') : m' = m.deleteAll (passes.flatMap (·.deletions)) := by
  induction passes generalizing m with
  | nil => exact (Except.ok.inj hok).symm
  | cons pass passes ih =>
      rw [effectOf] at hok
      cases hpass : pass.effect m with
      | error e =>
          rw [hpass] at hok
          cases hok
      | ok m₁ =>
          rw [hpass] at hok
          obtain rfl := Pass.effect_eq_deletions h hpass
          rw [ih (Module.increments_deleteAll h _) hok, List.flatMap_cons, Module.deleteAll_append]

/-- **Passes that begin with lowering** lower, and then only delete. -/
theorem effectOf_lowerIncrements {lowering : Lowering} {passes : List Pass} {m m' : Module}
    (hok : effectOf (.lowerIncrements lowering :: passes) m = .ok m') :
    ∃ m₁, m.lower lowering = .ok m₁ ∧ m' = m₁.deleteAll (passes.flatMap (·.deletions)) := by
  rw [effectOf, Pass.effect] at hok
  cases hlower : m.lower lowering with
  | error e =>
      rw [hlower] at hok
      cases hok
  | ok m₁ =>
      rw [hlower] at hok
      exact ⟨m₁, rfl, effectOf_eq_deletions (Module.increments_lower hlower) hok⟩

end SourceCoverage
