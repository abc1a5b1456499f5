import SourceCoverage.Text.Printable
import SourceCoverage.Text.Extending

/-!
# Quoted Text

Diagnostics show a list of names as quoted texts in brackets, in such a way that every character
of a name can be told from the line. A quote and a backslash are escaped; tab, line feed,
carriage return and NUL have letters of their own; any other character that has no printed form,
or that would be drawn onto its neighbour, is written as its code point in hexadecimal.
-/

namespace SourceCoverage.Text

/-- The hexadecimal digits of a number, without leading zeros. -/
def hexDigits (n : Nat) : List Char := Nat.toDigits 16 n

/-- How one character is written within quotes. -/
def quoteChar (c : Char) : List Char :=
  if c = '\x00' then ['\\', '0']
  else if c = '\t' then ['\\', 't']
  else if c = '\n' then ['\\', 'n']
  else if c = '\r' then ['\\', 'r']
  else if c = '"' ∨ c = '\\' then ['\\', c]
  else if isExtending c || !isPrintable c then
    "\\u\x7b".toList ++ hexDigits c.toNat ++ ['\x7d']
  else [c]

/-- A text within quotes. -/
def quote (text : String) : String :=
  "\"" ++ String.ofList (text.toList.flatMap quoteChar) ++ "\""

/-- A list of quoted texts within brackets. -/
def quoteList (texts : List String) : String :=
  "[" ++ ", ".intercalate (texts.map quote) ++ "]"

end SourceCoverage.Text
