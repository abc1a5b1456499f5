import SourceCoverage.Toml.Scanner

/-!
# Strings and Keys

There are four forms of string. Double quotes allow for escapes, single quotes do not; one quote
on each side keeps the string to its line, three do not. In the forms with three quotes an end of
line right behind the opening quotes is no part of the string, all other ends of lines are line
feeds, and one or two quotes may stand next to the closing ones. A key is a string that keeps to
its line, or a run of letters, digits, dashes and underscores.
-/

namespace SourceCoverage.Toml

open Scanner

/-- The value of a hexadecimal digit. -/
def hexValue (c : Char) : Nat :=
  if c.isDigit then c.toNat - '0'.toNat
  else if 'a' ≤ c then c.toNat - 'a'.toNat + 10
  else c.toNat - 'A'.toNat + 10

/-- Whether a character is a hexadecimal digit. -/
def isHexDigit (c : Char) : Bool :=
  c.isDigit || 'a' ≤ c && c ≤ 'f' || 'A' ≤ c && c ≤ 'F'

/-- Takes exactly `n` hexadecimal digits behind those of the number `value`. -/
def hexNumber : (n : Nat) → (value : Nat) → Scanner Nat
  | 0, value => pure value
  | n + 1, value => do
    let c ← satisfy isHexDigit
    hexNumber n (16 * value + hexValue c)

/-- Takes the character of a code point given by `n` hexadecimal digits. -/
def codePoint (n : Nat) : Scanner Char := do
  let value ← hexNumber n 0
  if value.isValidChar then return Char.ofNat value else failure

/-- Takes what follows a backslash. -/
def escaped : Scanner Char := do
  match ← satisfy fun _ => true with
  | 'b' => return '\x08'
  | 't' => return '\t'
  | 'n' => return '\n'
  | 'f' => return '\x0c'
  | 'r' => return '\r'
  | '"' => return '"'
  | '\\' => return '\\'
  | 'u' => codePoint 4
  | 'U' => codePoint 8
  | _ => failure

/-- Takes an escape. -/
def escape : Scanner Char := do
  char '\\'
  escaped

/-- Takes a string in double quotes on one line. -/
def basicString : Scanner (List Char) := do
  char '"'
  let body ← many (satisfy (fun c => isText c && c ≠ '"' && c ≠ '\\') <|> escape)
  char '"'
  return body

/-- Takes a string in single quotes on one line. -/
def literalString : Scanner (List Char) := do
  char '\''
  let body ← takeWhile fun c => isText c && c ≠ '\''
  char '\''
  return body

/-- Takes one or two quotes that are no part of a longer run. -/
def fewQuotes (quote : Char) : Scanner (List Char) := fun text =>
  let run := text.takeWhile (· = quote)
  if run.length = 1 ∨ run.length = 2 then some (run, text.dropWhile (· = quote)) else none

/-- Takes three closing quotes; of a longer run one or two quotes before them belong to the
string. -/
def closingQuotes (quote : Char) : Scanner (List Char) := fun text =>
  let length := min 5 (text.takeWhile (· = quote)).length
  if length < 3 then none else some (List.replicate (length - 3) quote, text.drop length)

/-- Takes a string in three quotes, given what may stand in it besides quotes and ends of
lines. -/
def multilineString (quote : Char) (piece : Scanner (List Char)) : Scanner (List Char) := do
  word [quote, quote, quote]
  let _ ← optional? newline
  let body ← many (piece <|> (do newline; return ['\n']) <|> fewQuotes quote)
  let last ← closingQuotes quote
  return body.flatten ++ last

/-- Takes a backslash at the end of a line, with all blanks and ends of lines that follow. -/
def lineContinuation : Scanner (List Char) := do
  char '\\'
  blanks
  newline
  let _ ← many ((do let _ ← satisfy fun c => c = ' ' || c = '\t') <|> newline)
  return []

/-- Takes a string in three double quotes. -/
def multilineBasicString : Scanner (List Char) :=
  multilineString '"' <|
    (do return [← satisfy fun c => isText c && c ≠ '"' && c ≠ '\\'])
      <|> lineContinuation <|> (do return [← escape])

/-- Takes a string in three single quotes. -/
def multilineLiteralString : Scanner (List Char) :=
  multilineString '\'' (do return [← satisfy fun c => isText c && c ≠ '\''])

/-- Takes a string of any form. -/
def anyString : Scanner String :=
  String.ofList <$>
    (multilineBasicString <|> basicString <|> multilineLiteralString <|> literalString)

/-! ### Keys -/

/-- Whether a character may stand in a key without quotes. -/
def isBare (c : Char) : Bool := c.isAlphanum || c = '-' || c = '_'

/-- Takes a key without dots. -/
def simpleKey : Scanner String :=
  String.ofList <$>
    (basicString <|> literalString <|> (do return (← satisfy isBare) :: (← takeWhile isBare)))

/-- One more than the greatest number of parts of a dotted key, and than the greatest nesting of
arrays and inline tables. -/
def nestingLimit : Nat := 80

/-- Takes a key with the blanks around it: the keys of the tables that it leads through, and the
last one. -/
def dottedKey : Scanner (List String × String) := do
  let part : Scanner String := do
    blanks
    let key ← simpleKey
    blanks
    return key
  let first ← part
  let others ← many (do char '.'; part)
  if nestingLimit ≤ others.length + 1 then failure
  let parts := first :: others
  return (parts.dropLast, parts.getLast (by simp))

end SourceCoverage.Toml
