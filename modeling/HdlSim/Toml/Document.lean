import HdlSim.Toml.Scalar

/-!
# Documents

A document is a sequence of assignments under table headers.  A table is defined once: a header may
name a table that is so far only implied by the headers of its sub-tables, and dotted keys may only
extend tables that dotted keys made.
-/

namespace HdlSim.Toml

/-- The entries of a table. -/
abbrev Entries (ν : Type) := List (String × ν)

/-- The entries with another value under a key that is present. -/
def replace {ν : Type} (key : String) (value : ν) : Entries ν → Entries ν
  | [] => []
  | (k, v) :: rest => if k = key then (k, value) :: rest else (k, v) :: replace key value rest

/-- The entries with a key that was not there before. -/
def addNew {ν : Type} (key : String) (value : ν) (entries : Entries ν) : Option (Entries ν) :=
  match entries.lookup key with
  | some _ => none
  | none => some (entries ++ [(key, value)])

/-- Puts a value into an inline table. -/
def insertInline (value : Value) : List String → Entries Value → Option (Entries Value)
  | [], _ => none
  | [key], entries => addNew key value entries
  | key :: path, entries =>
    match entries.lookup key with
    | none => do return entries ++ [(key, .table true (← insertInline value path []))]
    | some (.table true inner) => do
      return replace key (.table true (← insertInline value path inner)) entries
    | some _ => none

/-- Reads the items of an array and its end, given the reader of items.  A comma may follow the last
item. -/
def arrayItems (item : Reader Value) : Reader (List Value) := do
  blankLines
  match ← Reader.optional item with
  | none =>
    Reader.char ']'
    return []
  | some first =>
    let rest ← Reader.many (do
      blankLines
      Reader.char ','
      blankLines
      item)
    blankLines
    let _ ← Reader.optional (Reader.char ',')
    blankLines
    Reader.char ']'
    return first :: rest

/-- Reads an assignment, given the reader of its value. -/
def assignment (item : Reader Value) : Reader (List String × Value) := do
  let path ← key
  Reader.char '='
  spaces
  let v ← item
  return (path, v)

/-- Reads the entries of an inline table and its end, given the reader of values. -/
def inlineEntries (item : Reader Value) : Reader (Entries Value) := do
  spaces
  let assignments ← Reader.optional
    (Reader.sepBy1 (do let a ← assignment item; spaces; return a) ',')
  Reader.char '\x7d'
  match (assignments.getD []).foldlM (fun es (path, v) => insertInline v path es) [] with
  | some entries => return entries
  | none => failure

/-- Reads a value with at most the given number of levels. -/
def value : Nat → Reader Value
  | 0 => scalar
  | levels + 1 => do
    match ← Reader.peek with
    | some '[' =>
      Reader.char '['
      return .array (← arrayItems (value levels))
    | some '\x7b' =>
      Reader.char '\x7b'
      return .table false (← inlineEntries (value levels))
    | _ => scalar

/-- What stands on a line of a document. -/
inductive Statement where
  | assign (path : List String) (value : Value)
  /-- The header of a table, or of one more table of an array. -/
  | header (ofArray : Bool) (path : List String)

/-- Reads the header of a table. -/
def header : Reader Statement :=
  (do
    Reader.string ['[', '[']
    let path ← key
    Reader.string [']', ']']
    return .header true path)
  <|> (do
    Reader.char '['
    let path ← key
    Reader.char ']'
    return .header false path)

/-- Reads a line of a document, which may be empty. -/
def statementLine : Reader (Option Statement) := do
  spaces
  match ← Reader.peek with
  | none => failure
  | some '#' => do lineEnd; return none
  | some '\n' => do newline; return none
  | some '\r' => do newline; return none
  | some '[' => do
    let s ← header
    lineEnd
    return some s
  | some _ => do
    let (path, v) ← assignment (value (depthLimit - 1))
    lineEnd
    return some (.assign path v)

/-- Reads the lines of a document.  It may begin with a byte order mark. -/
def statements : Reader (List Statement) := do
  let _ ← Reader.optional (Reader.char '\ufeff')
  let lines ← Reader.many statementLine
  spaces
  Reader.eof
  return lines.filterMap id

/-- What a document defines under a key. -/
inductive Node where
  | value (value : Value)
  /-- A table; `implied` if no header has named it, `dotted` if dotted keys made it. -/
  | table (implied dotted : Bool) (entries : List (String × Node))
  /-- An array of tables, each under a header of its own. -/
  | tables (items : List (List (String × Node)))

/-- Goes down a path of keys and changes the table there.  Missing tables are made on the way.
A path of dotted keys does not enter a table that a header has named; in an array of tables the
way leads into the last. -/
def descend (dotted : Bool) (change : Bool → Entries Node → Option (Entries Node)) :
    List String → Bool → Entries Node → Option (Entries Node)
  | [], isDotted, entries => change isDotted entries
  | key :: path, _, entries =>
    match entries.lookup key with
    | none => do
      let inner ← descend dotted change path dotted []
      return entries ++ [(key, .table true dotted inner)]
    | some (.value _) => none
    | some (.table implied isDotted inner) =>
      if dotted && !implied then none
      else do
        let inner ← descend dotted change path isDotted inner
        return replace key (.table implied isDotted inner) entries
    | some (.tables items) =>
      match items.getLast? with
      | none => none
      | some last => do
        let last ← descend dotted change path false last
        return replace key (.tables (items.dropLast ++ [last])) entries

/-- Assigns a value in the table at work.  A dotted key ends in a table that dotted keys made. -/
def assign (path : List String) (v : Value) (entries : Entries Node) : Option (Entries Node) :=
  match path.getLast? with
  | none => none
  | some key =>
    let parents := path.dropLast
    descend true (fun isDotted es =>
      if isDotted == parents.isEmpty then none else addNew key (.value v) es) parents false entries

/-- A header and the assignments under it. -/
structure Section where
  ofArray : Bool
  path : List String
  assignments : List (List String × Value)

/-- The assignments before the first header, and the sections that follow. -/
def sections : List Statement → List (List String × Value) × List Section
  | [] => ([], [])
  | .assign path v :: rest =>
    let (top, more) := sections rest
    ((path, v) :: top, more)
  | .header ofArray path :: rest =>
    let (top, more) := sections rest
    ([], ⟨ofArray, path, top⟩ :: more)

/-- Carries out assignments in a table. -/
def assignAll (entries : Entries Node) (assignments : List (List String × Value)) :
    Option (Entries Node) :=
  assignments.foldlM (fun es (path, v) => assign path v es) entries

/-- Defines the table that a header names, or adds one to the array that it names. -/
def Section.define (s : Section) (key : String) (entries : Entries Node) :
    Option (Entries Node) :=
  match s.ofArray, entries.lookup key with
  | false, none => do
    return entries ++ [(key, .table false false (← assignAll [] s.assignments))]
  | false, some (.table true false inner) => do
    return replace key (.table false false (← assignAll inner s.assignments)) entries
  | true, none => do return entries ++ [(key, .tables [← assignAll [] s.assignments])]
  | true, some (.tables items) => do
    return replace key (.tables (items ++ [← assignAll [] s.assignments])) entries
  | _, _ => none

/-- Defines what a section says. -/
def Section.apply (root : Entries Node) (s : Section) : Option (Entries Node) :=
  match s.path.getLast? with
  | none => none
  | some key => descend false (fun _ es => s.define key es) s.path.dropLast false root

mutual

/-- The value that a node has. -/
def Node.toValue : Node → Value
  | .value v => v
  | .table _ _ entries => .table false (entryValues entries)
  | .tables items => .array (itemValues items)

/-- The values of the entries of a table. -/
def entryValues : List (String × Node) → List (String × Value)
  | [] => []
  | (key, node) :: rest => (key, node.toValue) :: entryValues rest

/-- The values of the tables of an array. -/
def itemValues : List (List (String × Node)) → List Value
  | [] => []
  | entries :: rest => .table false (entryValues entries) :: itemValues rest

end

/-- The table that a text defines. -/
def parse (text : String) : Option (Entries Value) := do
  let (top, more) := sections (← Reader.readAll statements text.toList)
  let root ← more.foldlM Section.apply (← assignAll [] top)
  return entryValues root

end HdlSim.Toml
