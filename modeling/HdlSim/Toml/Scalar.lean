import HdlSim.Toml.Str

/-!
# Numbers, dates and times

Integers have 64 bits.  A decimal number that is too large for a double is refused, unless it is
negative.  Dates are checked against the calendar.
-/

namespace HdlSim.Toml

/-- A value: a scalar, or one that is built of others. -/
inductive Value where
  | str (text : String)
  | int (value : Int)
  /-- A floating-point number as it is written. -/
  | float (text : String)
  | bool (value : Bool)
  /-- A date, a time, or both, as it is written. -/
  | dateTime (text : String)
  | array (items : List Value)
  /-- A table; one that dotted keys made can be extended by them. -/
  | table (dotted : Bool) (entries : List (String × Value))

/-- Reads something and gives the characters that were read. -/
def textOf (r : Reader Unit) : Reader String := fun cs =>
  match r cs with
  | some (_, rest) => some (String.ofList (cs.take (cs.length - rest.length)), rest)
  | none => none

/-- Reads digits of a class, where single underscores may stand between two of them. -/
def digitGroups (p : Char → Bool) : Reader (List Char) := do
  let first ← Reader.satisfy p
  let rest ← Reader.many (Reader.satisfy p <|> do Reader.char '_'; Reader.satisfy p)
  return first :: rest

/-- The number that digits stand for. -/
def digitsValue (base : Nat) (digits : List Char) : Nat :=
  digits.foldl (fun n c => base * n + (hexValue? c).getD 0) 0

/-- Reads a sign; says whether it is a minus. -/
def sign : Reader Bool := do
  match ← Reader.optional (Reader.satisfy fun c => c == '+' || c == '-') with
  | some '-' => return true
  | _ => return false

/-- Reads a sign and decimal digits; a zero stands alone. -/
def decimal : Reader (Bool × List Char) := do
  let negative ← sign
  let digits ← (do
    match ← Reader.peek with
    | some '0' => return [← Reader.satisfy Char.isDigit]
    | _ => digitGroups Char.isDigit)
  return (negative, digits)

/-- An integer, if it has 64 bits. -/
def int64Value (v : Int) : Reader Value :=
  if -9223372036854775808 ≤ v ∧ v < 9223372036854775808 then return .int v else failure

/-- Reads an integer in a base that is not ten. -/
def basedInteger (mark : Char) (base : Nat) (p : Char → Bool) : Reader Value := do
  Reader.string ['0', mark]
  int64Value (digitsValue base (← digitGroups p))

/-- Reads an integer. -/
def integer : Reader Value :=
  basedInteger 'x' 16 (fun c => (hexValue? c).isSome)
    <|> basedInteger 'o' 8 (fun c => '0' ≤ c && c ≤ '7')
    <|> basedInteger 'b' 2 (fun c => c == '0' || c == '1')
    <|> do
      let (negative, digits) ← decimal
      let v : Int := digitsValue 10 digits
      int64Value (if negative then -v else v)

/-- Reads the exponent of a decimal number. -/
def exponent : Reader Int := do
  let _ ← Reader.satisfy fun c => c == 'e' || c == 'E'
  let negative ← sign
  let v : Int := digitsValue 10 (← digitGroups Char.isDigit)
  return if negative then -v else v

/-- Reads the fractional digits of a decimal number. -/
def fraction : Reader (List Char) := do
  Reader.char '.'
  digitGroups Char.isDigit

/-- Whether `mantissa * 10 ^ scale` is nearer to infinity than to any double: the least such number
lies half a unit above the greatest double. -/
def roundsToInfinity (mantissa : Nat) (scale : Int) : Bool :=
  let bound := Nat.pow 2 1024 - Nat.pow 2 970
  let size := (Nat.toDigits 10 mantissa).length + scale
  if mantissa = 0 || size < 300 then false
  else if size > 310 then true
  else if 0 ≤ scale then mantissa * Nat.pow 10 scale.toNat ≥ bound
  else mantissa ≥ bound * Nat.pow 10 (-scale).toNat

/-- Reads a decimal number with an exponent or a fraction. -/
def decimalFloat : Reader Unit := do
  let (negative, digits) ← decimal
  let (fractionDigits, power) ←
    (do return ([], ← exponent)) <|>
    (do
      let digits ← fraction
      let power ← Reader.optional exponent
      return (digits, power.getD 0))
  let mantissa := digitsValue 10 (digits ++ fractionDigits)
  if !negative && roundsToInfinity mantissa (power - fractionDigits.length) then failure
  else return ()

/-- Reads an infinity or a value that is no number. -/
def specialFloat : Reader Unit := do
  let _ ← sign
  Reader.string ['i', 'n', 'f'] <|> Reader.string ['n', 'a', 'n']

/-- Reads a floating-point number. -/
def float : Reader Value := do
  return .float (← textOf (decimalFloat <|> specialFloat))

/-- Reads a decimal number of exactly the given number of digits. -/
def fixedNumber : Nat → Nat → Reader Nat
  | 0, value => pure value
  | n + 1, value => do
    let c ← Reader.satisfy Char.isDigit
    fixedNumber n (10 * value + (hexValue? c).getD 0)

/-- Reads a number of two digits in a range. -/
def twoDigits (lo hi : Nat) : Reader Nat := do
  let n ← fixedNumber 2 0
  if lo ≤ n && n ≤ hi then return n else failure

/-- The number of days of a month. -/
def daysOfMonth (year month : Nat) : Nat :=
  if month = 2 then
    if year % 4 = 0 && (year % 100 != 0 || year % 400 = 0) then 29 else 28
  else if month = 4 || month = 6 || month = 9 || month = 11 then 30
  else 31

/-- Reads a date. -/
def date : Reader Unit := do
  let year ← fixedNumber 4 0
  Reader.char '-'
  let month ← twoDigits 1 12
  Reader.char '-'
  let _ ← twoDigits 1 (daysOfMonth year month)

/-- Reads a time of day. -/
def time : Reader Unit := do
  let _ ← twoDigits 0 23
  Reader.char ':'
  let _ ← twoDigits 0 59
  Reader.char ':'
  let _ ← twoDigits 0 60
  let _ ← Reader.optional (do Reader.char '.'; Reader.takeWhile1 Char.isDigit)

/-- Reads an offset from universal time. -/
def offset : Reader Unit := do
  match ← Reader.satisfy fun c => c == 'Z' || c == 'z' || c == '+' || c == '-' with
  | 'Z' => return ()
  | 'z' => return ()
  | _ =>
    let _ ← twoDigits 0 23
    Reader.char ':'
    let _ ← twoDigits 0 59

/-- Reads a time that follows a date. -/
def timeOfDate : Reader Unit := do
  let _ ← Reader.satisfy fun c => c == 'T' || c == 't' || c == ' '
  time
  let _ ← Reader.optional offset

/-- Reads a date, a time, or both. -/
def dateTime : Reader Value := do
  return .dateTime (← textOf ((do date; let _ ← Reader.optional timeOfDate) <|> time))

/-- Reads a value that is not built of others. -/
def scalar : Reader Value :=
  (do return .str (← str))
    <|> (do Reader.string ['t', 'r', 'u', 'e']; return .bool true)
    <|> (do Reader.string ['f', 'a', 'l', 's', 'e']; return .bool false)
    <|> dateTime <|> float <|> integer

end HdlSim.Toml
