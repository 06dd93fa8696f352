import HdlSim.Toml.Reader

/-!
# Strings and keys

Basic strings have escapes, literal strings have none; either may span lines between triple quotes.
-/

namespace HdlSim.Toml

/-- Whether a character may stand unescaped in a basic string. -/
def isBasicChar (c : Char) : Bool := isPlain c && c != '"' && c != '\\'

/-- Whether a character may stand in a literal string. -/
def isLiteralChar (c : Char) : Bool := isPlain c && c != '\''

/-- The value of a hexadecimal digit. -/
def hexValue? (c : Char) : Option Nat :=
  if c.isDigit then some (c.toNat - '0'.toNat)
  else if 'a' ≤ c && c ≤ 'f' then some (c.toNat - 'a'.toNat + 10)
  else if 'A' ≤ c && c ≤ 'F' then some (c.toNat - 'A'.toNat + 10)
  else none

/-- Reads a hexadecimal number of exactly the given number of digits. -/
def hexNumber : Nat → Nat → Reader Nat
  | 0, value => pure value
  | n + 1, value => do
    let c ← Reader.satisfy fun c => (hexValue? c).isSome
    hexNumber n (16 * value + (hexValue? c).getD 0)

/-- Reads a character given by its number in so many digits. -/
def codePoint (digits : Nat) : Reader Char := do
  let n ← hexNumber digits 0
  if n.isValidChar then return Char.ofNat n else failure

/-- Reads an escape. -/
def escape : Reader Char := do
  Reader.char '\\'
  match ← Reader.satisfy fun _ => true with
  | 'b' => return '\x08'
  | 't' => return '\t'
  | 'n' => return '\n'
  | 'f' => return '\x0c'
  | 'r' => return '\r'
  | '"' => return '"'
  | '\\' => return '\\'
  | 'u' => codePoint 4
  | 'U' => codePoint 8
  | _ => failure

/-- Reads a basic string on one line. -/
def basicString : Reader String := do
  Reader.char '"'
  let cs ← Reader.many (Reader.satisfy isBasicChar <|> escape)
  Reader.char '"'
  return String.ofList cs

/-- Reads a literal string on one line. -/
def literalString : Reader String := do
  Reader.char '\''
  let cs ← Reader.takeWhile isLiteralChar
  Reader.char '\''
  return String.ofList cs

/-- Reads a backslash at the end of a line, with the blank that it hides. -/
def hiddenBreak : Reader Unit := do
  Reader.char '\\'
  spaces
  newline
  let _ ← Reader.many (newline <|> spaces1)

/-- Reads a piece of a basic string that spans lines. -/
def multiBasicPiece : Reader (List Char) :=
  Reader.takeWhile1 isBasicChar
    <|> (do hiddenBreak; return [])
    <|> (do return [← escape])
    <|> (do newline; return ['\n'])

/-- Reads a piece of a literal string that spans lines. -/
def multiLiteralPiece : Reader (List Char) :=
  Reader.takeWhile1 isLiteralChar <|> (do newline; return ['\n'])

/-- Reads one or two quotes that do not end the string: a piece has to follow them. -/
def innerQuotes (quote : Char) (piece : Reader (List Char)) : Reader (List Char) :=
  (do Reader.string [quote, quote]; return quote :: quote :: (← piece))
    <|> (do Reader.char quote; return quote :: (← piece))

/-- Reads the quotes that end a string; up to two more belong to it. -/
def closingQuotes (quote : Char) : Reader (List Char) :=
  (do Reader.string [quote, quote, quote, quote, quote]; return [quote, quote])
    <|> (do Reader.string [quote, quote, quote, quote]; return [quote])
    <|> (do Reader.string [quote, quote, quote]; return [])

/-- Reads a string that spans lines.  A line break right after the quotes does not count. -/
def multiString (quote : Char) (piece : Reader (List Char)) : Reader String := do
  Reader.string [quote, quote, quote]
  let _ ← Reader.optional newline
  let pieces ← Reader.many (piece <|> innerQuotes quote piece)
  let last ← closingQuotes quote
  return String.ofList (pieces.flatten ++ last)

/-- Reads a string. -/
def str : Reader String :=
  multiString '"' multiBasicPiece <|> basicString
    <|> multiString '\'' multiLiteralPiece <|> literalString

/-- Whether a character may stand in a bare key. -/
def isBareChar (c : Char) : Bool := c.isAlphanum || c == '_' || c == '-'

/-- Reads one part of a key. -/
def simpleKey : Reader String :=
  basicString <|> literalString <|> do return String.ofList (← Reader.takeWhile1 isBareChar)

/-- The number of parts of a key, and of levels of a value, is below this. -/
def depthLimit : Nat := 80

/-- Reads a key: parts with dots between them. -/
def key : Reader (List String) := do
  let parts ← Reader.sepBy1 (do spaces; let k ← simpleKey; spaces; return k) '.'
  if parts.length < depthLimit then return parts else failure

end HdlSim.Toml
