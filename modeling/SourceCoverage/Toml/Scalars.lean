import SourceCoverage.Toml.Strings
import SourceCoverage.Toml.Value

/-!
# Numbers, Dates and Truth Values

Numbers have decimal digits, without superfluous leading zeros, and underscores between digits at
will; integers have 64 bits, and without a sign may have hexadecimal, octal or binary digits
instead. A float has a fraction or an exponent, and is refused if it is positive and beyond all
finite 64-bit floats. Dates and times of day have their usual form and ranges; a date may be
followed by a time, and that by an offset.
-/

namespace SourceCoverage.Toml

open Scanner

/-! ### Numbers -/

/-- The number that digits spell in a base. -/
def numberOf (base : Nat) (digits : List Char) : Nat :=
  digits.foldl (fun value c => base * value + hexValue c) 0

/-- Takes a sign. The answer is whether it is a minus. -/
def sign : Scanner Bool :=
  (do char '-'; return true) <|> (do char '+'; return false)

/-- Takes decimal digits, of which the first one is a zero only if it is the only one. -/
def decimalDigits : Scanner (List Char) :=
  (do
    let first ← satisfy fun c => c.isDigit && c ≠ '0'
    let others ← many (satisfy Char.isDigit <|> (do char '_'; satisfy Char.isDigit))
    return first :: others)
  <|> (do char '0'; return ['0'])

/-- Takes an integer in another base behind its mark. -/
def markedInteger (mark : Char) (base : Nat) (isDigit : Char → Bool) : Scanner Nat := do
  word ['0', mark]
  return numberOf base (← digits isDigit)

/-- Takes an integer. -/
def integer : Scanner Value := do
  let marked : Scanner Int :=
    (fun n : Nat => (n : Int)) <$>
      (markedInteger 'x' 16 isHexDigit
        <|> markedInteger 'o' 8 (fun c => '0' ≤ c && c ≤ '7')
        <|> markedInteger 'b' 2 (fun c => c = '0' || c = '1'))
  let plain : Scanner Int := do
    let negative ← optional? sign
    let n := numberOf 10 (← decimalDigits)
    return if negative = some true then -(n : Int) else n
  let n ← marked <|> plain
  if -0x8000000000000000 ≤ n ∧ n < 0x8000000000000000 then return .integer n else failure

/-- The least number that is rounded to infinity: half a unit above the greatest finite float. -/
def floatLimit : Nat := 1 <<< 1024 - 1 <<< 970

/-- Whether `mantissa * 10 ^ exponent` is beyond all finite floats. Where the number of digits
does not tell, the numbers are compared. -/
def overflows (mantissa : Nat) (exponent : Int) : Bool :=
  let magnitude : Int := (Nat.toDigits 10 mantissa).length + exponent
  if mantissa = 0 then false
  else if magnitude ≤ 308 then false
  else if 310 < magnitude then true
  else if exponent < 0 then floatLimit * Nat.pow 10 exponent.natAbs ≤ mantissa
  else floatLimit ≤ mantissa * Nat.pow 10 exponent.natAbs

/-- Takes the exponent of a float. -/
def floatExponent : Scanner Int := do
  char 'e' <|> char 'E'
  let negative ← optional? sign
  let n := numberOf 10 (← digits Char.isDigit)
  return if negative = some true then -(n : Int) else n

/-- Takes a float, or one of the words for infinity and for no number at all. -/
def float : Scanner Value := do
  let negative ← optional? sign
  let finite : Scanner (Nat × Int) := do
    let whole ← decimalDigits
    let fraction ← optional? (do char '.'; digits Char.isDigit)
    let exponent ← if fraction.isSome then optional? floatExponent else some <$> floatExponent
    let fraction := fraction.getD []
    return (numberOf 10 (whole ++ fraction), exponent.getD 0 - fraction.length)
  let special : Scanner (Nat × Int) :=
    (word ['i', 'n', 'f'] <|> word ['n', 'a', 'n']) *> pure (0, 0)
  let (mantissa, exponent) ← finite <|> special
  if negative ≠ some true && overflows mantissa exponent then failure
  return .float

/-! ### Dates and times -/

/-- Takes a number of two digits within bounds. -/
def twoDigits (least greatest : Nat) : Scanner Nat := do
  let n ← fixedNumber 2
  if least ≤ n ∧ n ≤ greatest then return n else failure

/-- The number of days of a month. -/
def daysInMonth (year month : Nat) : Nat :=
  let isLeap := year % 4 = 0 ∧ (year % 100 ≠ 0 ∨ year % 400 = 0)
  if month = 2 then if isLeap then 29 else 28
  else if month = 4 ∨ month = 6 ∨ month = 9 ∨ month = 11 then 30
  else 31

/-- Takes a date. -/
def date : Scanner Unit := do
  let year ← fixedNumber 4
  char '-'
  let month ← twoDigits 1 12
  char '-'
  let _ ← twoDigits 1 (daysInMonth year month)

/-- Takes a time of day. -/
def time : Scanner Unit := do
  let _ ← twoDigits 0 23
  char ':'
  let _ ← twoDigits 0 59
  char ':'
  let _ ← twoDigits 0 60
  let _ ← optional? (do char '.'; let _ ← satisfy Char.isDigit; takeWhile Char.isDigit)

/-- Takes an offset. -/
def offset : Scanner Unit :=
  char 'Z' <|> char 'z' <|> (do
    let _ ← sign
    let _ ← twoDigits 0 23
    char ':'
    let _ ← twoDigits 0 59)

/-- Takes a date, a time of day, or both. -/
def dateTime : Scanner Value := do
  (do
    date
    let _ ← optional? (do
      char 'T' <|> char 't' <|> char ' '
      time
      optional? offset)
    pure ()) <|> time
  return .dateTime

/-! ### Single values -/

/-- Takes a truth value. -/
def boolean : Scanner Value :=
  (do word ['t', 'r', 'u', 'e']; return .boolean true)
  <|> (do word ['f', 'a', 'l', 's', 'e']; return .boolean false)

/-- Takes a value that has no parts. -/
def scalar : Scanner Value :=
  (Value.string <$> anyString) <|> boolean <|> dateTime <|> float <|> integer

end SourceCoverage.Toml
