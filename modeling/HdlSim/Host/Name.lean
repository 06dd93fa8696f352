/-!
# Host identifiers

HDL names are arbitrary text; identifiers of the host language are not.  A name becomes a *word* of
letters, digits and underscores; a word that the generated code uses for itself gets an underscore
behind it, and a keyword is written as a raw identifier.
-/

namespace HdlSim

/-- An identifier of the host language; a raw one is marked, which lets it be a keyword. -/
structure HostName where
  raw : Bool
  word : String
deriving DecidableEq

namespace HostName

/-- The identifier as it stands in the generated code. -/
def text (n : HostName) : String := if n.raw then "r#" ++ n.word else n.word

/-- An identifier that is not raw. -/
def plain (word : String) : HostName := ⟨false, word⟩

/-- The keywords that can be raw identifiers. -/
def keywords : List String :=
  ["abstract", "as", "async", "await", "become", "box", "break", "const", "continue", "do",
   "dyn", "else", "enum", "extern", "false", "final", "fn", "for", "gen", "if", "impl", "in",
   "let", "loop", "macro", "match", "mod", "move", "mut", "override", "priv", "pub", "ref",
   "return", "static", "struct", "trait", "true", "try", "type", "typeof", "unsafe", "unsized",
   "use", "virtual", "where", "while", "yield"]

/-- The words that no declared name may have: the keywords that cannot be raw identifiers, and the
members and parameters that every model has. -/
def reserved : List String :=
  ["self", "Self", "super", "crate", "model", "io", "sim", "inst_name", "new", "init_body",
   "run_process"]

/-- Whether a character may stand in a word. -/
def isWordChar (c : Char) : Bool := c.isAlphanum || c == '_'

/-- The characters of the word for a name: others are replaced by underscores, and an underscore
stands in front where the word would be empty or start with a digit. -/
def wordChars (name : List Char) : List Char :=
  let cs := name.map fun c => if isWordChar c then c else '_'
  match cs with
  | [] => ['_']
  | c :: _ => if c.isDigit then '_' :: cs else cs

/-- The identifier for an HDL name. -/
def escape (name : String) : HostName :=
  let word := String.ofList (wordChars name.toList)
  if word ∈ reserved then ⟨false, word ++ "_"⟩
  else if word ∈ keywords then ⟨true, word⟩
  else ⟨false, word⟩

end HostName

end HdlSim
