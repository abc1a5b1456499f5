import Mathlib.Data.List.Forall2

/-!
# Results That Are There

What it takes for a computation that may fail to have a result: for one behind a check, for one
whose result is changed afterwards, and for several in a row. With these lemmas, a success is taken
apart into the successes of its parts without unfolding how failures are handed on.
-/

namespace SourceCoverage

/-- A check in front of others is passed together with them. -/
theorem ite_error_eq_ok_iff {ε α : Type} {p : Prop} [Decidable p] {e : ε} {rest : Except ε α}
    {a : α} : (if p then Except.error e else rest) = .ok a ↔ ¬p ∧ rest = .ok a := by
  by_cases h : p
  · simp [h]
  · simp [h]

/-- A check in front of others fails, or it is passed and one of the others fails. -/
theorem ite_error_eq_error_iff {ε α : Type} {p : Prop} [Decidable p] {e e' : ε}
    {rest : Except ε α} : (if p then Except.error e' else rest) = .error e
      ↔ p ∧ e' = e ∨ ¬p ∧ rest = .error e := by
  by_cases h : p
  · simp [h]
  · simp [h]

/-- A mapped result is there exactly when the result is. -/
theorem map_eq_ok_iff {ε α β : Type} {f : α → β} {result : Except ε α} {b : β} :
    result.map f = .ok b ↔ ∃ a, result = .ok a ∧ f a = b := by
  cases result <;> simp [Except.map]

/-- A mapped result fails exactly as the result does. -/
theorem map_eq_error_iff {ε α β : Type} {f : α → β} {result : Except ε α} {e : ε} :
    result.map f = .error e ↔ result = .error e := by
  cases result <;> simp [Except.map]

/-- Each of several results is there exactly when the list of them is. -/
theorem mapM_eq_ok_iff {α β ε : Type} {f : α → Except ε β} {xs : List α} {ys : List β} :
    xs.mapM f = .ok ys ↔ List.Forall₂ (fun x y => f x = .ok y) xs ys := by
  induction xs generalizing ys with
  | nil => simp [pure, Except.pure, eq_comm]
  | cons x xs ih =>
      rw [List.mapM_cons, List.forall₂_cons_left_iff]
      cases hx : f x with
      | error e => simp [bind, Except.bind]
      | ok y =>
          cases hxs : xs.mapM f with
          | error e => simp [bind, Except.bind, ← ih, hxs]
          | ok others => simp [bind, Except.bind, pure, Except.pure, ← ih, hxs, eq_comm]

end SourceCoverage
