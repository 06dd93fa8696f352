/-!
# JSON values

A JSON value and the ways in which a tree is read off one.  A *record* is an object read by its
keys, or an array that has exactly its fields, in order.  A *variant* is an object with a single
key, its tag, or, when it has no content, the tag alone as a string.

Each part that is handed out comes with the proof that it is smaller than the whole (`Json.Part`),
so that readers of trees can recurse on parts.
-/

namespace HdlSim

/-- A JSON value.  Numbers that are not integers are kept as decimal fractions. -/
inductive Json where
  | null
  | bool (value : Bool)
  | int (value : Int)
  /-- The number `mantissa / 10 ^ places`. -/
  | fraction (mantissa : Int) (places : Nat)
  | str (text : String)
  | arr (items : List Json)
  | obj (fields : List (String × Json))
deriving Inhabited

namespace Json

/-- A value that stands somewhere inside another. -/
abbrev Part (j : Json) := { v : Json // sizeOf v < sizeOf j }

/-- The value under the first occurrence of a key. -/
def lookup? (key : String) :
    (fields : List (String × Json)) → Option { v : Json // sizeOf v < sizeOf fields }
  | [] => none
  | (k, v) :: rest =>
    if k = key then some ⟨v, by simp; omega⟩
    else (lookup? key rest).map fun ⟨v, h⟩ => ⟨v, by simp; omega⟩

/-- The items of an array. -/
def items? : (j : Json) → Option (List j.Part)
  | .arr items => some (items.attach.map fun ⟨v, h⟩ =>
      ⟨v, by have := List.sizeOf_lt_of_mem h; simp; omega⟩)
  | _ => none

/-- The fields of an object under the given keys, each if present. -/
def fields? (keys : List String) : (j : Json) → Option (List (Option j.Part))
  | .obj fields => some (keys.map fun key =>
      (lookup? key fields).map fun ⟨v, h⟩ => ⟨v, by simp; omega⟩)
  | _ => none

/-- The fields of a record with the given keys: by key from an object, by position from an array
of exactly as many items. -/
def record? (keys : List String) (j : Json) : Option (List (Option j.Part)) :=
  match j.items? with
  | some items => if items.length = keys.length then some (items.map some) else none
  | none => j.fields? keys

/-- The tag of a variant, and its content if it has any. -/
def variant? : (j : Json) → Option (String × Option j.Part)
  | .str tag => some (tag, none)
  | .obj [(tag, content)] => some (tag, some ⟨content, by simp; omega⟩)
  | _ => none

/-- The tag of a variant without content; a content of `null` counts as none. -/
def unitTag? (j : Json) : Option String :=
  match j.variant? with
  | some (tag, none) => some tag
  | some (tag, some ⟨.null, _⟩) => some tag
  | _ => none

/-- Reads a field that may be absent; `null` stands for absent too. -/
def optional {j : Json} {α : Type} (read : j.Part → Option α) :
    Option j.Part → Option (Option α)
  | none => some none
  | some ⟨.null, _⟩ => some none
  | some part => (read part).map some

/-- Reads a Boolean. -/
def bool? : Json → Option Bool
  | .bool b => some b
  | _ => none

/-- Reads a text. -/
def str? : Json → Option String
  | .str s => some s
  | _ => none

/-- Reads an integer. -/
def int? : Json → Option Int
  | .int v => some v
  | _ => none

/-- Reads an unsigned integer of 32 bits; others are refused. -/
def uint32? : Json → Option UInt32
  | .int v => if 0 ≤ v ∧ v < 4294967296 then some (UInt32.ofNat v.toNat) else none
  | _ => none

/-- Reads a signed integer of 64 bits; others are refused. -/
def int64? : Json → Option Int64
  | .int v =>
    if -9223372036854775808 ≤ v ∧ v < 9223372036854775808 then some (Int64.ofInt v) else none
  | _ => none

/-- Reads an array item by item. -/
def list? {α : Type} (j : Json) (read : j.Part → Option α) : Option (List α) := do
  (← j.items?).mapM read

/-- Writes a value that may be absent. -/
def ofOption {α : Type} (write : α → Json) : Option α → Json
  | none => .null
  | some a => write a

/-- Writes a variant with content. -/
def tagged (tag : String) (content : Json) : Json := .obj [(tag, content)]

end Json

end HdlSim
