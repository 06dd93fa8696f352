import HdlSim.Text.DefaultIgnorable
import HdlSim.Text.GraphemeExtend
import HdlSim.Text.Unprintable

/-!
# Quoted strings

The string literals of the host language.  A text stands between double quotes; quotes,
backslashes and the usual controls have short escapes, and a character that would not show by
itself is written by its number.
-/

namespace HdlSim.Text

/-- A character by its number: `\u`, then the lower-case hexadecimal digits in braces. -/
def escapeCode (c : Char) : List Char :=
  ['\\', 'u', '\x7b'] ++ Nat.toDigits 16 c.toNat ++ ['\x7d']

/-- Whether a character would not show by itself: it attaches to the one before it, is usually not
drawn, or has no printed form. -/
def isHidden (c : Char) : Bool :=
  isGraphemeExtend c || isDefaultIgnorable c || isUnprintable c

/-- A character as it stands inside a quoted string. -/
def escapeChar (c : Char) : List Char :=
  if c = '\x00' then ['\\', '0']
  else if c = '\t' then ['\\', 't']
  else if c = '\r' then ['\\', 'r']
  else if c = '\n' then ['\\', 'n']
  else if c = '\\' then ['\\', '\\']
  else if c = '"' then ['\\', '"']
  else if isHidden c then escapeCode c
  else [c]

/-- The string literal that stands for a text. -/
def quote (s : String) : String :=
  String.ofList ('"' :: s.toList.flatMap escapeChar ++ ['"'])

end HdlSim.Text
