/-!
# Readers

A reader takes characters off the front of a text or refuses it.  Alternatives are tried in order,
each from where the one before it began.
-/

namespace HdlSim.Toml

/-- A reader of values off the front of a text. -/
abbrev Reader (α : Type) := StateT (List Char) Option α

namespace Reader

variable {α : Type}

/-- Reads one character of a class. -/
def satisfy (p : Char → Bool) : Reader Char
  | c :: rest => if p c then some (c, rest) else none
  | [] => none

/-- Reads a given character. -/
def char (c : Char) : Reader Unit := do let _ ← satisfy (· == c)

/-- Reads given characters. -/
def string : List Char → Reader Unit
  | [] => pure ()
  | c :: cs => do
    char c
    string cs

/-- Reads as many characters of a class as there are. -/
def takeWhile (p : Char → Bool) : Reader (List Char) := fun cs =>
  some (cs.takeWhile p, cs.dropWhile p)

/-- Reads as many characters of a class as there are, and at least one. -/
def takeWhile1 (p : Char → Bool) : Reader (List Char) := do
  let cs ← takeWhile p
  if cs.isEmpty then failure else return cs

/-- Reads something if it is there. -/
def optional (r : Reader α) : Reader (Option α) := fun cs =>
  match r cs with
  | some (a, rest) => some (some a, rest)
  | none => some (none, cs)

/-- The next character, which is left where it is. -/
def peek : Reader (Option Char) := fun cs => some (cs.head?, cs)

/-- The end of the text. -/
def eof : Reader Unit
  | [] => some ((), [])
  | _ => none

/-- Reads the same thing over and over, at most the given number of times. -/
def upTo (r : Reader α) : Nat → Reader (List α)
  | 0 => pure []
  | n + 1 => fun cs =>
    match r cs with
    | some (a, rest) => (upTo r n rest).map fun (as, rest) => (a :: as, rest)
    | none => some ([], cs)

/-- Reads the same thing over and over.  It is to take at least one character each time. -/
def many (r : Reader α) : Reader (List α) := fun cs => upTo r cs.length cs

/-- Reads a thing one or more times, with a mark between. -/
def sepBy1 (r : Reader α) (mark : Char) : Reader (List α) := do
  let first ← r
  let rest ← many (do char mark; r)
  return first :: rest

/-- Reads the whole of a text. -/
def readAll (r : Reader α) (cs : List Char) : Option α :=
  match r cs with
  | some (a, []) => some a
  | _ => none

end Reader

/-- Whether a character is a space or a tab. -/
def isSpace (c : Char) : Bool := c == ' ' || c == '\t'

/-- Whether a character may stand in a comment or a string: no control but the tab. -/
def isPlain (c : Char) : Bool := c == '\t' || (c.toNat ≥ 0x20 && c.toNat != 0x7f)

/-- Skips spaces and tabs. -/
def spaces : Reader Unit := do let _ ← Reader.takeWhile isSpace

/-- Skips spaces and tabs, at least one. -/
def spaces1 : Reader Unit := do let _ ← Reader.takeWhile1 isSpace

/-- Reads a line break. -/
def newline : Reader Unit :=
  Reader.char '\n' <|> Reader.string ['\r', '\n']

/-- Reads a comment, up to the end of its line. -/
def comment : Reader Unit := do
  Reader.char '#'
  let _ ← Reader.takeWhile isPlain

/-- Reads what may follow on a line that is complete, and the end of the line. -/
def lineEnd : Reader Unit := do
  spaces
  let _ ← Reader.optional comment
  newline <|> Reader.eof

/-- Skips spaces, line breaks and comments. -/
def blankLines : Reader Unit := do
  let _ ← Reader.many (spaces1 <|> newline <|> do comment; newline)

end HdlSim.Toml
