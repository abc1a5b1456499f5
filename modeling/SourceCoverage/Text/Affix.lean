/-!
# Heads and Last Characters of Texts

Texts are taken apart at their ends: a fixed head is cut off, or a last character.

## Main results

* `Text.dropHead?_eq_some_iff`, `Text.dropLast?_eq_some_iff` — what is left over is what the whole
  is made of with the part cut off.
-/

namespace SourceCoverage.Text

/-- What follows `head` in a text, if the text starts with it. -/
def dropHead? : (head text : List Char) → Option (List Char)
  | [], text => some text
  | _ :: _, [] => none
  | c :: head, d :: text => if c = d then dropHead? head text else none

/-- What comes before the character `c` at the end of a text, if the text ends in it. -/
def dropLast? (c : Char) (text : List Char) : Option (List Char) :=
  if text.getLast? = some c then some text.dropLast else none

/-- A text has a rest behind a head exactly when it is the head followed by the rest. -/
theorem dropHead?_eq_some_iff {head text rest : List Char} :
    dropHead? head text = some rest ↔ text = head ++ rest := by
  induction head generalizing text with
  | nil => simp [dropHead?, eq_comm]
  | cons c head ih =>
    cases text with
    | nil => simp [dropHead?]
    | cons d text =>
      by_cases h : c = d
      · simp [dropHead?, h, ih]
      · simp [dropHead?, h, Ne.symm h]

/-- A text has a rest in front of a last character exactly when it is the rest followed by it. -/
theorem dropLast?_eq_some_iff {c : Char} {text rest : List Char} :
    dropLast? c text = some rest ↔ text = rest ++ [c] := by
  unfold dropLast?
  constructor
  · intro h
    split at h
    · rename_i hlast
      obtain ⟨front, rfl⟩ := List.getLast?_eq_some_iff.1 hlast
      rw [← Option.some.inj h, List.dropLast_concat]
    · simp at h
  · rintro rfl
    simp

end SourceCoverage.Text
