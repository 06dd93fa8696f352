/-!
# Texts side by side

Texts with a separator between them, and the decimal digits of numbers.
-/

namespace HdlSim.Text

/-- Texts with a separator between each two of them. -/
def joinWith (separator : String) : List String → String
  | [] => ""
  | [text] => text
  | text :: rest => text ++ separator ++ joinWith separator rest

/-- Texts with commas between them. -/
def commaList (texts : List String) : String := joinWith ", " texts

/-- A number in decimal digits. -/
def natText (n : Nat) : String := String.ofList (Nat.toDigits 10 n)

/-- An integer in decimal digits, with a minus sign in front of a negative one. -/
def intText : Int → String
  | .ofNat n => natText n
  | .negSucc n => "-" ++ natText (n + 1)

/-- A Boolean as a word. -/
def boolText : Bool → String
  | true => "true"
  | false => "false"

end HdlSim.Text
