/-!
# Scanners of Characters

A scanner takes something from the front of a text or fails; one that fails takes nothing, so that
another can be tried in its place.
-/

namespace SourceCoverage.Toml

/-- A function that takes something from the front of a text. -/
abbrev Scanner (α : Type) := StateT (List Char) Option α

namespace Scanner

/-- Takes a character that satisfies `p`. -/
def satisfy (p : Char → Bool) : Scanner Char
  | c :: rest => if p c then some (c, rest) else none
  | [] => none

/-- Takes a given character. -/
def char (c : Char) : Scanner Unit := do let _ ← satisfy (· = c)

/-- Takes a given word. -/
def word : List Char → Scanner Unit
  | [] => pure ()
  | c :: rest => do
    char c
    word rest

/-- Takes the longest run of characters that satisfy `p`. -/
def takeWhile (p : Char → Bool) : Scanner (List Char) := fun text =>
  some (text.takeWhile p, text.dropWhile p)

/-- Takes what the scanner takes, or nothing. -/
def optional? {α : Type} (p : Scanner α) : Scanner (Option α) := (some <$> p) <|> pure none

/-- What the scanner gives again and again, until it fails, the text ends or the budget is used
up, with what is left. Each round uses up one entry of the budget. -/
def manyWithin {α : Type} (p : Scanner α) : (budget text : List Char) → List α × List Char
  | [], text => ([], text)
  | _, [] => ([], [])
  | _ :: budget, c :: text =>
    match p (c :: text) with
    | none => ([], c :: text)
    | some (a, rest) =>
      let (others, rest) := manyWithin p budget rest
      (a :: others, rest)

/-- Takes what the scanner takes, again and again. Every round takes a character at least, so the
text itself is a sufficient budget. -/
def many {α : Type} (p : Scanner α) : Scanner (List α) := fun text =>
  some (manyWithin p text text)

/-- Accepts the end of the text only. -/
def atEnd : Scanner Unit
  | [] => some ((), [])
  | _ => none

/-- Takes a digit and more digits, between any two of which one underscore may stand. -/
def digits (isDigit : Char → Bool) : Scanner (List Char) := do
  let first ← satisfy isDigit
  let others ← many (satisfy isDigit <|> (do char '_'; satisfy isDigit))
  return first :: others

/-- Takes exactly `n` decimal digits, and gives the number they spell. -/
def fixedNumber (n : Nat) : Scanner Nat := go n 0
where
  /-- Takes the digits that remain behind those of the number `value`. -/
  go : Nat → Nat → Scanner Nat
    | 0, value => pure value
    | n + 1, value => do
      let c ← satisfy Char.isDigit
      go n (10 * value + (c.toNat - '0'.toNat))

end Scanner

/-! ### Blanks, ends of lines, comments -/

open Scanner

/-- Takes spaces and tabs. -/
def blanks : Scanner Unit := do let _ ← takeWhile fun c => c = ' ' || c = '\t'

/-- Takes an end of line: a line feed, with or without a carriage return before it. -/
def newline : Scanner Unit := char '\n' <|> word ['\r', '\n']

/-- Whether a character may stand in a comment or a string: no control character but the tab. -/
def isText (c : Char) : Bool := c = '\t' || ' '.toNat ≤ c.toNat && c.toNat ≠ 0x7f

/-- Takes a comment, up to the end of the line. -/
def comment : Scanner Unit := do
  char '#'
  let _ ← takeWhile isText

/-- Takes blanks, ends of lines, and comments on lines of their own or behind something. -/
def blankLines : Scanner Unit := do
  let _ ← many ((do let _ ← satisfy fun c => c = ' ' || c = '\t') <|> newline
    <|> (do comment; newline))

/-- Takes the rest of a line on which everything is said. -/
def lineEnd : Scanner Unit := do
  blanks
  let _ ← optional? comment
  newline <|> atEnd

end SourceCoverage.Toml
