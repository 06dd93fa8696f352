import HdlSim.Design.Decode
import HdlSim.Design.Encode
import Mathlib.Data.List.Forall2

/-!
# Designs there and back

A design goes from one program to another as a JSON value.  The value need not be the one that the
encoder writes: where a structure has no value for a field, the key may be left out, and an object
for a structure may have keys that the structure does not know.  `Spelling` says which values stand
for a tree, at every depth of it and without reference to the reader.

Main statement: what the encoder writes is a spelling, every spelling is read as the tree that it
stands for, and so whatever was read, however it was spelled, is read again from its encoding
(`designs_interchange`).
-/

namespace HdlSim

/-! ### Kinds of JSON values -/

namespace Json

/-- The values under a key. -/
def under (key : String) (fields : List (String × Json)) : List Json :=
  (fields.filter fun field => field.1 = key).map Prod.snd

/-- A field: its key stands in the object once, with a value of this kind. -/
def Field (key : String) (kind : Json → Prop) (fields : List (String × Json)) : Prop :=
  ∃ v, under key fields = [v] ∧ kind v

/-- A field without a value: its key is left out, or `null` stands under it. -/
def Absent (key : String) (fields : List (String × Json)) : Prop :=
  under key fields = [] ∨ under key fields = [.null]

/-- A field that need not have a value. -/
def OptionField {α : Type} (key : String) (kind : α → Json → Prop) :
    Option α → List (String × Json) → Prop
  | none => Absent key
  | some a => Field key (kind a)

/-- An object with these fields.  Nothing is said of other keys. -/
def Object (fields : List (String × Json) → Prop) (j : Json) : Prop :=
  ∃ fs, j = .obj fs ∧ fields fs

/-- An array with these items. -/
def Items (items : List Json → Prop) (j : Json) : Prop := ∃ js, j = .arr js ∧ items js

/-- An alternative: an object whose only key is the tag. -/
def Tagged (tag : String) (content : Json → Prop) (j : Json) : Prop :=
  ∃ v, j = tagged tag v ∧ content v

end Json

open Json

/-! ### Spellings -/

/-- The value stands for the constant. -/
def Literal.Spelling : Literal → Json → Prop
  | .int v => Tagged "Int" (· = .int v.toInt)
  | .bits width digits => Tagged "Bits" (Object fun fs =>
      Field "width" (· = .int width.toNat) fs ∧ Field "digits" (· = .str digits) fs)
  | .bool b => Tagged "Bool" (· = .bool b)
  | .str s => Tagged "Str" (· = .str s)

mutual

/-- The value stands for the expression. -/
def Expr.Spelling : Expr → Json → Prop
  | .name n => Tagged "Name" (· = n.encode)
  | .literal v => Tagged "Literal" v.Spelling
  | .unary op a => Tagged "Unary" (Object fun fs =>
      Field "op" (· = .str op.tag) fs ∧ Field "operand" a.Spelling fs)
  | .binary op a b => Tagged "Binary" (Object fun fs =>
      Field "op" (· = .str op.tag) fs ∧ Field "lhs" a.Spelling fs ∧ Field "rhs" b.Spelling fs)
  | .ternary c a b => Tagged "Ternary" (Object fun fs =>
      Field "condition" c.Spelling fs ∧ Field "if_true" a.Spelling fs ∧
        Field "if_false" b.Spelling fs)
  | .index a i => Tagged "Index" (Object fun fs =>
      Field "base" a.Spelling fs ∧ Field "index" i.Spelling fs)
  | .slice a h l => Tagged "Slice" (Object fun fs =>
      Field "base" a.Spelling fs ∧ Field "high" h.Spelling fs ∧ Field "low" l.Spelling fs)
  | .concat parts => Tagged "Concat" (Items (Expr.Spellings parts))
  | .cast a t => Tagged "Cast" (Object fun fs =>
      Field "expr" a.Spelling fs ∧ Field "ty" t.Spelling fs)
  | .call f args => Tagged "Call" (Object fun fs =>
      Field "function" (· = f.encode) fs ∧ Field "args" (Items (Expr.Spellings args)) fs)
  | .edge k a => Tagged "Edge" (Object fun fs =>
      Field "edge" (· = .str k.tag) fs ∧ Field "signal" a.Spelling fs)
  | .type t => Tagged "Type" t.Spelling

/-- The value stands for the type. -/
def Ty.Spelling : Ty → Json → Prop
  | .bits width signed => Tagged "Bits" (Object fun fs =>
      Field "width" (· = .int width.toNat) fs ∧ Field "signed" (· = .bool signed) fs)
  | .enum members => Tagged "Enum" (Object (Field "members" (Items (EnumMember.Spellings members))))
  | .array t size => Tagged "Array" (Object fun fs =>
      Field "element" t.Spelling fs ∧ Field "size" size.Spelling fs)
  | .named n => Tagged "Named" (· = n.encode)
  | .typeOfTypes => (· = .str "Meta")

/-- The value stands for the member of an enumeration. -/
def EnumMember.Spelling : EnumMember → Json → Prop
  | ⟨name, none⟩ => Object fun fs => Field "name" (· = name.encode) fs ∧ Absent "value" fs
  | ⟨name, some e⟩ => Object fun fs =>
      Field "name" (· = name.encode) fs ∧ Field "value" e.Spelling fs

/-- The values stand for the expressions, in order. -/
def Expr.Spellings : List Expr → List Json → Prop
  | [], js => js = []
  | e :: es, js => ∃ v vs, js = v :: vs ∧ e.Spelling v ∧ Expr.Spellings es vs

/-- The values stand for the members of an enumeration, in order. -/
def EnumMember.Spellings : List EnumMember → List Json → Prop
  | [], js => js = []
  | m :: ms, js => ∃ v vs, js = v :: vs ∧ m.Spelling v ∧ EnumMember.Spellings ms vs

end

mutual

/-- The value stands for the statement. -/
def Stmt.Spelling : Stmt → Json → Prop
  | .assign t v => Tagged "Assign" (Object fun fs =>
      Field "target" t.Spelling fs ∧ Field "value" v.Spelling fs)
  | .ifElse branches none => Tagged "If" (Object fun fs =>
      Field "branches" (Items (IfBranch.Spellings branches)) fs ∧ Absent "else_body" fs)
  | .ifElse branches (some body) => Tagged "If" (Object fun fs =>
      Field "branches" (Items (IfBranch.Spellings branches)) fs ∧
        Field "else_body" (Items (Stmt.Spellings body)) fs)
  | .case selector arms none => Tagged "Case" (Object fun fs =>
      Field "selector" selector.Spelling fs ∧ Field "arms" (Items (CaseArm.Spellings arms)) fs ∧
        Absent "default" fs)
  | .case selector arms (some body) => Tagged "Case" (Object fun fs =>
      Field "selector" selector.Spelling fs ∧ Field "arms" (Items (CaseArm.Spellings arms)) fs ∧
        Field "default" (Items (Stmt.Spellings body)) fs)
  | .block body => Tagged "Block" (Items (Stmt.Spellings body))
  | .null => (· = .str "Null")

/-- The values stand for the statements, in order. -/
def Stmt.Spellings : List Stmt → List Json → Prop
  | [], js => js = []
  | s :: ss, js => ∃ v vs, js = v :: vs ∧ s.Spelling v ∧ Stmt.Spellings ss vs

/-- The values stand for the branches, in order. -/
def IfBranch.Spellings : List IfBranch → List Json → Prop
  | [], js => js = []
  | ⟨condition, body⟩ :: rest, js => ∃ v vs, js = v :: vs ∧
      Object (fun fs => Field "condition" condition.Spelling fs ∧
        Field "body" (Items (Stmt.Spellings body)) fs) v ∧ IfBranch.Spellings rest vs

/-- The values stand for the arms, in order. -/
def CaseArm.Spellings : List CaseArm → List Json → Prop
  | [], js => js = []
  | ⟨choices, body⟩ :: rest, js => ∃ v vs, js = v :: vs ∧
      Object (fun fs => Field "choices" (Items (Expr.Spellings choices)) fs ∧
        Field "body" (Items (Stmt.Spellings body)) fs) v ∧ CaseArm.Spellings rest vs

end

/-- The value stands for a documentation, if there is one. -/
def DocField : Option String → List (String × Json) → Prop :=
  OptionField "doc" fun text j => j = .str text

/-- The values stand for names, in order. -/
def Ident.Spellings : List Ident → List Json → Prop := List.Forall₂ fun n j => j = n.encode

/-- The value stands for the declaration. -/
def Variable.Spelling (v : Variable) : Json → Prop :=
  Object fun fs => Field "name" (· = v.name.encode) fs ∧ DocField v.doc fs ∧
    Field "ty" v.type.Spelling fs ∧ OptionField "value" Expr.Spelling v.value fs ∧
    Field "is_const" (· = .bool v.isConst) fs ∧
    OptionField "direction" (fun d j => j = .str d.tag) v.direction fs

/-- The value stands for the named enumeration. -/
def EnumDecl.Spelling (d : EnumDecl) : Json → Prop :=
  Object fun fs => Field "name" (· = d.name.encode) fs ∧ DocField d.doc fs ∧
    Field "members" (Items (EnumMember.Spellings d.members)) fs

/-- The value stands for the named array type. -/
def ArrayDecl.Spelling (d : ArrayDecl) : Json → Prop :=
  Object fun fs => Field "name" (· = d.name.encode) fs ∧ DocField d.doc fs ∧
    Field "element" d.element.Spelling fs ∧ Field "size" d.size.Spelling fs

/-- The value stands for the process. -/
def ProcessDecl.Spelling (p : ProcessDecl) : Json → Prop :=
  Object fun fs => Field "label" (· = p.label.encode) fs ∧ DocField p.doc fs ∧
    Field "sensitivity" (Items (Expr.Spellings p.sensitivity)) fs ∧
    Field "body" (Items (Stmt.Spellings p.body)) fs ∧
    OptionField "outputs" (fun ns => Items (Ident.Spellings ns)) p.outputs fs

/-- The value stands for the port binding. -/
def PortBinding.Spelling (b : PortBinding) : Json → Prop :=
  Object fun fs => Field "port" (· = b.port.encode) fs ∧ Field "signal" (· = b.signal.encode) fs

/-- The value stands for the instance. -/
def Instance.Spelling (i : Instance) : Json → Prop :=
  Object fun fs => Field "name" (· = i.name.encode) fs ∧
    Field "module_name" (· = i.moduleName.encode) fs ∧ DocField i.doc fs ∧
    Field "port_map" (Items (List.Forall₂ PortBinding.Spelling i.portMap)) fs

/-- The value stands for the function. -/
def FunctionDecl.Spelling (f : FunctionDecl) : Json → Prop :=
  Object fun fs => Field "name" (· = f.name.encode) fs ∧
    Field "params" (Items (Ident.Spellings f.params)) fs ∧
    Field "body" (Items (Stmt.Spellings f.body)) fs

/-- The value stands for the generic parameter. -/
def Generic.Spelling (g : Generic) : Json → Prop :=
  Object fun fs => Field "name" (· = g.name.encode) fs ∧ Field "ty" g.type.Spelling fs ∧
    OptionField "default" Expr.Spelling g.default fs

/-- The value stands for the item. -/
def Item.Spelling : Item → Json → Prop
  | .enumType d => Tagged "EnumType" d.Spelling
  | .arrayType d => Tagged "ArrayType" d.Spelling
  | .varDecl d => Tagged "Variable" d.Spelling
  | .process p => Tagged "Process" p.Spelling
  | .subunit i => Tagged "Component" i.Spelling
  | .function f => Tagged "Function" f.Spelling

/-- The value stands for the module. -/
def Module.Spelling (m : Module) : Json → Prop :=
  Object fun fs => Field "name" (· = m.name.encode) fs ∧ DocField m.doc fs ∧
    Field "params" (Items (List.Forall₂ Generic.Spelling m.params)) fs ∧
    Field "ports" (Items (List.Forall₂ Variable.Spelling m.ports)) fs ∧
    Field "items" (Items (List.Forall₂ Item.Spelling m.items)) fs

/-! ### Reading fields -/

/-- Reading goes on behind a part that has been read. -/
theorem read_then {α β : Type} {x : Option α} {f : α → Option β} {a : α} {b : β} (hx : x = some a)
    (hf : f a = some b) : (x >>= f) = some b := by
  rw [hx]
  exact hf

namespace Json

variable {fields : List (String × Json)} {key : String} {kind : Json → Prop}

/-- The first field with a key is found. -/
private theorem lookup?_eq_head? (key : String) (fields : List (String × Json)) :
    (lookup? key fields).map Subtype.val = (under key fields).head? := by
  induction fields with
  | nil => rfl
  | cons field rest ih =>
      obtain ⟨k, v⟩ := field
      by_cases hk : k = key
      · simp [lookup?, under, hk]
      · have hunder : under key ((k, v) :: rest) = under key rest := by simp [under, hk]
        rw [hunder, ← ih, lookup?, if_neg hk, Option.map_map]
        rfl

private theorem sizeOf_lt_obj {fields : List (String × Json)} {v : Json}
    (h : sizeOf v < sizeOf fields) :
    sizeOf v < sizeOf (Json.obj fields) := by
  rw [Json.obj.sizeOf_spec]
  omega

/-- What stands under a key of an object. -/
def part? (fields : List (String × Json)) (key : String) : Option (Json.obj fields).Part :=
  (lookup? key fields).map fun ⟨v, h⟩ => ⟨v, sizeOf_lt_obj h⟩

/-- The part of an object under a key is the first one. -/
theorem part?_eq_head? (key : String) (fields : List (String × Json)) :
    (part? fields key).map Subtype.val = (under key fields).head? := by
  rw [← lookup?_eq_head?, part?, Option.map_map]
  rfl

/-- The parts of an object under some keys, each known by itself. -/
theorem fields?_eq {keys : List String} {parts : List (Option (Json.obj fields).Part)}
    (h : List.Forall₂ (fun key part => part? fields key = part) keys parts) :
    (Json.obj fields).fields? keys = some parts := by
  have hparts : keys.map (part? fields) = parts := by
    induction h with
    | nil => rfl
    | cons hpart _ ih => rw [List.map_cons, hpart, ih]
  rw [← hparts]
  rfl

/-- A record is read as the parts under its keys. -/
theorem record?_eq {keys : List String} {parts : List (Option (Json.obj fields).Part)}
    (h : List.Forall₂ (fun key part => part? fields key = part) keys parts) :
    (Json.obj fields).record? keys = some parts :=
  fields?_eq h

/-- The part that a field is. -/
theorem Field.part (h : Field key kind fields) :
    ∃ part, part? fields key = some part ∧ kind part.1 := by
  obtain ⟨v, hv, hkind⟩ := h
  have hpart := part?_eq_head? key fields
  rw [hv] at hpart
  obtain ⟨part, hsome, rfl⟩ := Option.map_eq_some_iff.mp hpart
  exact ⟨part, hsome, hkind⟩

/-- A field that is absent is read as nothing. -/
theorem Absent.optional_eq {α : Type} (h : Absent key fields)
    (read : (Json.obj fields).Part → Option α) :
    optional read (part? fields key) = some none := by
  have hpart := part?_eq_head? key fields
  rcases h with hnone | hnull
  · rw [hnone] at hpart
    rw [Option.map_eq_none_iff.mp hpart]
    rfl
  · rw [hnull] at hpart
    obtain ⟨⟨v, hlt⟩, hsome, hv⟩ := Option.map_eq_some_iff.mp hpart
    obtain rfl : v = .null := hv
    rw [hsome]
    rfl

/-- A field that is there is read as what it holds. -/
private theorem optional_some {j : Json} {α : Type} {read : j.Part → Option α} {part : j.Part}
    {a : α} (hnull : part.1 ≠ .null) (h : read part = some a) :
    optional read (some part) = some (some a) := by
  unfold optional
  split
  · contradiction
  · rename_i heq
    exact absurd (congrArg Subtype.val (Option.some.inj heq)) hnull
  · rename_i heq
    rw [← Option.some.inj heq, h]
    rfl

/-- A field that is read if it has a value. -/
theorem Field.optional_eq {α : Type} {a : α} (h : Field key kind fields)
    {read : (Json.obj fields).Part → Option α} (hnull : ∀ j, kind j → j ≠ .null)
    (hread : ∀ part : (Json.obj fields).Part, kind part.1 → read part = some a) :
    optional read (part? fields key) = some (some a) := by
  obtain ⟨part, hpart, hkind⟩ := h.part
  rw [hpart]
  exact optional_some (hnull _ hkind) (hread part hkind)

/-- A field that may be absent is read back. -/
theorem OptionField.optional_eq {α : Type} {kind : α → Json → Prop} {x : Option α}
    (h : OptionField key kind x fields) {read : (Json.obj fields).Part → Option α}
    (hnull : ∀ a j, kind a j → j ≠ .null)
    (hread : ∀ a (part : (Json.obj fields).Part), kind a part.1 → read part = some a) :
    optional read (part? fields key) = some x := by
  cases x with
  | none => exact Absent.optional_eq h read
  | some a => exact Field.optional_eq h (hnull a) (hread a)

/-- A list is read item by item. -/
theorem list?_eq {α : Type} (read : Json → Option α) (js : List Json) :
    (Json.arr js).list? (fun part => read part.1) = js.mapM read := by
  have hmap : ∀ (parts : List (Json.arr js).Part),
      parts.mapM (fun part => read part.1) = (parts.map Subtype.val).mapM read := by
    intro parts
    rw [List.mapM_map]
    rfl
  rw [list?, items?]
  show List.mapM (fun part : (Json.arr js).Part => read part.1) _ = _
  rw [hmap, List.map_map]
  have hval : (js.attach.map fun v => v.1) = js := List.attach_map_subtype_val js
  exact congrArg (List.mapM read) hval

/-- Items that are read one by one. -/
theorem mapM_eq {α : Type} {kind : α → Json → Prop} {read : Json → Option α} {xs : List α}
    {js : List Json} (h : List.Forall₂ kind xs js) (hread : ∀ x j, kind x j → read j = some x) :
    js.mapM read = some xs := by
  induction h with
  | nil => rfl
  | cons hx _ ih =>
      rw [List.mapM_cons, hread _ _ hx, ih]
      rfl

end Json

/-! ### Numbers, names and tags -/

/-- Natural numbers of 32 bits are read back. -/
theorem Json.uint32?_toNat (n : UInt32) : (Json.int n.toNat).uint32? = some n := by
  have hrange : 0 ≤ (n.toNat : Int) ∧ (n.toNat : Int) < 4294967296 := by
    have hlt := n.toNat_lt
    omega
  rw [uint32?, if_pos hrange, Int.toNat_natCast, UInt32.ofNat_toNat]

private theorem Json.int64?_toInt (v : Int64) : (Json.int v.toInt).int64? = some v := by
  have hrange : -9223372036854775808 ≤ v.toInt ∧ v.toInt < 9223372036854775808 :=
    ⟨v.le_toInt, v.toInt_lt⟩
  rw [int64?, if_pos hrange, Int64.ofInt_toInt]

/-- Names are read back. -/
theorem Ident.decode_encode (n : Ident) : Ident.decode n.encode = some n := by
  rw [Ident.decode, Ident.encode, uint32?_toNat]
  rfl

/-- Operators in front are read back. -/
theorem UnaryOp.decode_tag (op : UnaryOp) : UnaryOp.decode (.str op.tag) = some op := by
  cases op <;> rfl

/-- Operators between two are read back. -/
theorem BinaryOp.decode_tag (op : BinaryOp) : BinaryOp.decode (.str op.tag) = some op := by
  cases op <;> rfl

/-- Clock edges are read back. -/
theorem ClockEdge.decode_tag (k : ClockEdge) : ClockEdge.decode (.str k.tag) = some k := by
  cases k <;> rfl

/-- Directions are read back. -/
theorem Direction.decode_tag (d : Direction) : Direction.decode (.str d.tag) = some d := by
  cases d <;> rfl

/-! ### Reading spellings -/

/-- A spelling of a literal is read as the literal. -/
theorem Literal.decode_of_spelling : ∀ {v : Literal} {j : Json}, v.Spelling j →
    Literal.decode j = some v
  | .int v, _, ⟨_, rfl, rfl⟩ => read_then rfl (read_then (int64?_toInt v) rfl)
  | .bits width digits, _, ⟨_, rfl, _, rfl, hwidth, hdigits⟩ => by
      obtain ⟨⟨_, _⟩, hwidth, rfl⟩ := hwidth.part
      obtain ⟨⟨_, _⟩, hdigits, rfl⟩ := hdigits.part
      exact read_then rfl (read_then (fields?_eq (.cons hwidth (.cons hdigits .nil)))
        (read_then (uint32?_toNat width) rfl))
  | .bool _, _, ⟨_, rfl, rfl⟩ => rfl
  | .str _, _, ⟨_, rfl, rfl⟩ => rfl

/-- The value that stands for an expression is an object. -/
theorem Expr.Spelling.ne_null {e : Expr} {j : Json} (h : e.Spelling j) : j ≠ .null := by
  rintro rfl
  cases e <;> (obtain ⟨_, hj, -⟩ := h; cases hj)

mutual

/-- A spelling of an expression is read as the expression, by induction on the expression. -/
theorem Expr.decode_of_spelling : ∀ {e : Expr} {j : Json}, e.Spelling j → Expr.decode j = some e
  | .name n, _, ⟨_, rfl, rfl⟩ => by
      rw [Expr.decode]
      exact read_then rfl (read_then n.decode_encode rfl)
  | .literal _, _, ⟨_, rfl, hv⟩ => by
      rw [Expr.decode]
      exact read_then rfl (read_then (Literal.decode_of_spelling hv) rfl)
  | .unary op _, _, ⟨_, rfl, _, rfl, hop, ha⟩ => by
      obtain ⟨⟨_, _⟩, hop, rfl⟩ := hop.part
      obtain ⟨⟨_, _⟩, hpart, ha⟩ := ha.part
      rw [Expr.decode]
      exact read_then rfl (read_then (fields?_eq (.cons hop (.cons hpart .nil)))
        (read_then op.decode_tag (read_then (Expr.decode_of_spelling ha) rfl)))
  | .binary op _ _, _, ⟨_, rfl, _, rfl, hop, ha, hb⟩ => by
      obtain ⟨⟨_, _⟩, hop, rfl⟩ := hop.part
      obtain ⟨⟨_, _⟩, hlhs, ha⟩ := ha.part
      obtain ⟨⟨_, _⟩, hrhs, hb⟩ := hb.part
      rw [Expr.decode]
      exact read_then rfl (read_then (fields?_eq (.cons hop (.cons hlhs (.cons hrhs .nil))))
        (read_then op.decode_tag (read_then (Expr.decode_of_spelling ha)
          (read_then (Expr.decode_of_spelling hb) rfl))))
  | .ternary _ _ _, _, ⟨_, rfl, _, rfl, hc, ha, hb⟩ => by
      obtain ⟨⟨_, _⟩, hcondition, hc⟩ := hc.part
      obtain ⟨⟨_, _⟩, htrue, ha⟩ := ha.part
      obtain ⟨⟨_, _⟩, hfalse, hb⟩ := hb.part
      rw [Expr.decode]
      exact read_then rfl (read_then
        (fields?_eq (.cons hcondition (.cons htrue (.cons hfalse .nil))))
        (read_then (Expr.decode_of_spelling hc) (read_then (Expr.decode_of_spelling ha)
          (read_then (Expr.decode_of_spelling hb) rfl))))
  | .index _ _, _, ⟨_, rfl, _, rfl, ha, hi⟩ => by
      obtain ⟨⟨_, _⟩, hbase, ha⟩ := ha.part
      obtain ⟨⟨_, _⟩, hindex, hi⟩ := hi.part
      rw [Expr.decode]
      exact read_then rfl (read_then (fields?_eq (.cons hbase (.cons hindex .nil)))
        (read_then (Expr.decode_of_spelling ha) (read_then (Expr.decode_of_spelling hi) rfl)))
  | .slice _ _ _, _, ⟨_, rfl, _, rfl, ha, hh, hl⟩ => by
      obtain ⟨⟨_, _⟩, hbase, ha⟩ := ha.part
      obtain ⟨⟨_, _⟩, hhigh, hh⟩ := hh.part
      obtain ⟨⟨_, _⟩, hlow, hl⟩ := hl.part
      rw [Expr.decode]
      exact read_then rfl (read_then (fields?_eq (.cons hbase (.cons hhigh (.cons hlow .nil))))
        (read_then (Expr.decode_of_spelling ha) (read_then (Expr.decode_of_spelling hh)
          (read_then (Expr.decode_of_spelling hl) rfl))))
  | .concat _, _, ⟨_, rfl, _, rfl, hparts⟩ => by
      rw [Expr.decode]
      exact read_then rfl (read_then
        ((list?_eq Expr.decode _).trans (Expr.decode_of_spellings hparts)) rfl)
  | .cast _ _, _, ⟨_, rfl, _, rfl, ha, ht⟩ => by
      obtain ⟨⟨_, _⟩, hexpr, ha⟩ := ha.part
      obtain ⟨⟨_, _⟩, htype, ht⟩ := ht.part
      rw [Expr.decode]
      exact read_then rfl (read_then (fields?_eq (.cons hexpr (.cons htype .nil)))
        (read_then (Expr.decode_of_spelling ha) (read_then (Ty.decode_of_spelling ht) rfl)))
  | .call f _, _, ⟨_, rfl, _, rfl, hf, hargs⟩ => by
      obtain ⟨⟨_, _⟩, hf, rfl⟩ := hf.part
      obtain ⟨⟨_, _⟩, hpart, _, rfl, hargs⟩ := hargs.part
      rw [Expr.decode]
      exact read_then rfl (read_then (fields?_eq (.cons hf (.cons hpart .nil)))
        (read_then f.decode_encode (read_then
          ((list?_eq Expr.decode _).trans (Expr.decode_of_spellings hargs)) rfl)))
  | .edge k _, _, ⟨_, rfl, _, rfl, hk, ha⟩ => by
      obtain ⟨⟨_, _⟩, hk, rfl⟩ := hk.part
      obtain ⟨⟨_, _⟩, hsignal, ha⟩ := ha.part
      rw [Expr.decode]
      exact read_then rfl (read_then (fields?_eq (.cons hk (.cons hsignal .nil)))
        (read_then k.decode_tag (read_then (Expr.decode_of_spelling ha) rfl)))
  | .type _, _, ⟨_, rfl, ht⟩ => by
      rw [Expr.decode]
      exact read_then rfl (read_then (Ty.decode_of_spelling ht) rfl)

/-- A spelling of a type is read as the type. -/
theorem Ty.decode_of_spelling : ∀ {t : Ty} {j : Json}, t.Spelling j → Ty.decode j = some t
  | .bits width _, _, ⟨_, rfl, _, rfl, hwidth, hsigned⟩ => by
      obtain ⟨⟨_, _⟩, hwidth, rfl⟩ := hwidth.part
      obtain ⟨⟨_, _⟩, hsigned, rfl⟩ := hsigned.part
      rw [Ty.decode]
      exact read_then rfl (read_then (fields?_eq (.cons hwidth (.cons hsigned .nil)))
        (read_then (uint32?_toNat width) rfl))
  | .enum _, _, ⟨_, rfl, _, rfl, hmembers⟩ => by
      obtain ⟨⟨_, _⟩, hpart, _, rfl, hmembers⟩ := hmembers.part
      rw [Ty.decode]
      exact read_then rfl (read_then (fields?_eq (.cons hpart .nil)) (read_then
        ((list?_eq EnumMember.decode _).trans (EnumMember.decode_of_spellings hmembers)) rfl))
  | .array _ _, _, ⟨_, rfl, _, rfl, ht, hsize⟩ => by
      obtain ⟨⟨_, _⟩, helement, ht⟩ := ht.part
      obtain ⟨⟨_, _⟩, hpart, hsize⟩ := hsize.part
      rw [Ty.decode]
      exact read_then rfl (read_then (fields?_eq (.cons helement (.cons hpart .nil)))
        (read_then (Ty.decode_of_spelling ht) (read_then (Expr.decode_of_spelling hsize) rfl)))
  | .named n, _, ⟨_, rfl, rfl⟩ => by
      rw [Ty.decode]
      exact read_then rfl (read_then n.decode_encode rfl)
  | .typeOfTypes, _, rfl => by
      rw [Ty.decode]
      rfl

/-- A spelling of a member of an enumeration is read as the member. -/
theorem EnumMember.decode_of_spelling : ∀ {m : EnumMember} {j : Json}, m.Spelling j →
    EnumMember.decode j = some m
  | ⟨name, none⟩, _, ⟨_, rfl, hname, hvalue⟩ => by
      obtain ⟨⟨_, _⟩, hname, rfl⟩ := hname.part
      rw [EnumMember.decode]
      exact read_then (record?_eq (.cons hname (.cons rfl .nil)))
        (read_then name.decode_encode (read_then (hvalue.optional_eq _) rfl))
  | ⟨name, some _⟩, _, ⟨_, rfl, hname, hvalue⟩ => by
      obtain ⟨⟨_, _⟩, hname, rfl⟩ := hname.part
      rw [EnumMember.decode]
      refine read_then (record?_eq (.cons hname (.cons rfl .nil))) (read_then name.decode_encode
        (read_then (hvalue.optional_eq (fun _ => Expr.Spelling.ne_null) ?_) rfl))
      intro part hpart
      exact Expr.decode_of_spelling hpart

/-- Spellings of expressions are read one by one. -/
theorem Expr.decode_of_spellings : ∀ {es : List Expr} {js : List Json}, Expr.Spellings es js →
    js.mapM Expr.decode = some es
  | [], _, rfl => rfl
  | _ :: _, _, ⟨_, _, rfl, he, hes⟩ => by
      rw [List.mapM_cons]
      exact read_then (Expr.decode_of_spelling he) (read_then (Expr.decode_of_spellings hes) rfl)

/-- Spellings of members are read one by one. -/
theorem EnumMember.decode_of_spellings : ∀ {ms : List EnumMember} {js : List Json},
    EnumMember.Spellings ms js → js.mapM EnumMember.decode = some ms
  | [], _, rfl => rfl
  | _ :: _, _, ⟨_, _, rfl, hm, hms⟩ => by
      rw [List.mapM_cons]
      exact read_then (EnumMember.decode_of_spelling hm)
        (read_then (EnumMember.decode_of_spellings hms) rfl)

end

/-- A list is something. -/
theorem Json.Items.ne_null {items : List Json → Prop} {j : Json} (h : Items items j) :
    j ≠ .null := by
  rintro rfl
  obtain ⟨_, hj, -⟩ := h
  cases hj

mutual

/-- A spelling of a statement is read as the statement, by induction on the statement. -/
theorem Stmt.decode_of_spelling : ∀ {st : Stmt} {j : Json}, st.Spelling j → Stmt.decode j = some st
  | .assign _ _, _, ⟨_, rfl, _, rfl, ht, hv⟩ => by
      obtain ⟨⟨_, _⟩, htarget, ht⟩ := ht.part
      obtain ⟨⟨_, _⟩, hvalue, hv⟩ := hv.part
      rw [Stmt.decode]
      exact read_then rfl (read_then (fields?_eq (.cons htarget (.cons hvalue .nil)))
        (read_then (Expr.decode_of_spelling ht) (read_then (Expr.decode_of_spelling hv) rfl)))
  | .ifElse _ none, _, ⟨_, rfl, _, rfl, hbranches, helse⟩ => by
      obtain ⟨⟨_, _⟩, hpart, _, rfl, hbranches⟩ := hbranches.part
      rw [Stmt.decode]
      exact read_then rfl (read_then (fields?_eq (.cons hpart (.cons rfl .nil)))
        (read_then ((list?_eq IfBranch.decode _).trans (IfBranch.decode_of_spellings hbranches))
          (read_then (helse.optional_eq _) rfl)))
  | .ifElse _ (some _), _, ⟨_, rfl, _, rfl, hbranches, helse⟩ => by
      obtain ⟨⟨_, _⟩, hpart, _, rfl, hbranches⟩ := hbranches.part
      rw [Stmt.decode]
      refine read_then rfl (read_then (fields?_eq (.cons hpart (.cons rfl .nil)))
        (read_then ((list?_eq IfBranch.decode _).trans (IfBranch.decode_of_spellings hbranches))
          (read_then (helse.optional_eq (fun _ => Items.ne_null) ?_) rfl)))
      rintro ⟨_, _⟩ ⟨_, rfl, hbody⟩
      exact (list?_eq Stmt.decode _).trans (Stmt.decode_of_spellings hbody)
  | .case _ _ none, _, ⟨_, rfl, _, rfl, hselector, harms, hdefault⟩ => by
      obtain ⟨⟨_, _⟩, hpart, hselector⟩ := hselector.part
      obtain ⟨⟨_, _⟩, harmsPart, _, rfl, harms⟩ := harms.part
      rw [Stmt.decode]
      exact read_then rfl (read_then (fields?_eq (.cons hpart (.cons harmsPart (.cons rfl .nil))))
        (read_then (Expr.decode_of_spelling hselector) (read_then
          ((list?_eq CaseArm.decode _).trans (CaseArm.decode_of_spellings harms))
          (read_then (hdefault.optional_eq _) rfl))))
  | .case _ _ (some _), _, ⟨_, rfl, _, rfl, hselector, harms, hdefault⟩ => by
      obtain ⟨⟨_, _⟩, hpart, hselector⟩ := hselector.part
      obtain ⟨⟨_, _⟩, harmsPart, _, rfl, harms⟩ := harms.part
      rw [Stmt.decode]
      refine read_then rfl (read_then (fields?_eq (.cons hpart (.cons harmsPart (.cons rfl .nil))))
        (read_then (Expr.decode_of_spelling hselector) (read_then
          ((list?_eq CaseArm.decode _).trans (CaseArm.decode_of_spellings harms))
          (read_then (hdefault.optional_eq (fun _ => Items.ne_null) ?_) rfl))))
      rintro ⟨_, _⟩ ⟨_, rfl, hbody⟩
      exact (list?_eq Stmt.decode _).trans (Stmt.decode_of_spellings hbody)
  | .block _, _, ⟨_, rfl, _, rfl, hbody⟩ => by
      rw [Stmt.decode]
      exact read_then rfl (read_then
        ((list?_eq Stmt.decode _).trans (Stmt.decode_of_spellings hbody)) rfl)
  | .null, _, rfl => by
      rw [Stmt.decode]
      rfl

/-- Spellings of statements are read one by one. -/
theorem Stmt.decode_of_spellings : ∀ {body : List Stmt} {js : List Json}, Stmt.Spellings body js →
    js.mapM Stmt.decode = some body
  | [], _, rfl => rfl
  | _ :: _, _, ⟨_, _, rfl, hst, hrest⟩ => by
      rw [List.mapM_cons]
      exact read_then (Stmt.decode_of_spelling hst) (read_then (Stmt.decode_of_spellings hrest) rfl)

/-- Spellings of branches are read one by one. -/
theorem IfBranch.decode_of_spellings : ∀ {branches : List IfBranch} {js : List Json},
    IfBranch.Spellings branches js → js.mapM IfBranch.decode = some branches
  | [], _, rfl => rfl
  | ⟨_, _⟩ :: _, _, ⟨_, _, rfl, ⟨_, rfl, hcondition, hbody⟩, hrest⟩ => by
      obtain ⟨⟨_, _⟩, hpart, hcondition⟩ := hcondition.part
      obtain ⟨⟨_, _⟩, hbodyPart, _, rfl, hbody⟩ := hbody.part
      rw [List.mapM_cons, IfBranch.decode]
      refine read_then (read_then (record?_eq (.cons hpart (.cons hbodyPart .nil)))
        (read_then (Expr.decode_of_spelling hcondition) (read_then
          ((list?_eq Stmt.decode _).trans (Stmt.decode_of_spellings hbody)) rfl))) ?_
      exact read_then (IfBranch.decode_of_spellings hrest) rfl

/-- Spellings of arms are read one by one. -/
theorem CaseArm.decode_of_spellings : ∀ {arms : List CaseArm} {js : List Json},
    CaseArm.Spellings arms js → js.mapM CaseArm.decode = some arms
  | [], _, rfl => rfl
  | ⟨_, _⟩ :: _, _, ⟨_, _, rfl, ⟨_, rfl, hchoices, hbody⟩, hrest⟩ => by
      obtain ⟨⟨_, _⟩, hpart, _, rfl, hchoices⟩ := hchoices.part
      obtain ⟨⟨_, _⟩, hbodyPart, _, rfl, hbody⟩ := hbody.part
      rw [List.mapM_cons, CaseArm.decode]
      refine read_then (read_then (record?_eq (.cons hpart (.cons hbodyPart .nil)))
        (read_then ((list?_eq Expr.decode _).trans (Expr.decode_of_spellings hchoices)) (read_then
          ((list?_eq Stmt.decode _).trans (Stmt.decode_of_spellings hbody)) rfl))) ?_
      exact read_then (CaseArm.decode_of_spellings hrest) rfl

end

/-! ### Declarations and modules -/

/-- A documentation is read back. -/
theorem DocField.optional_eq {doc : Option String} {fields : List (String × Json)}
    (h : DocField doc fields) : decodeOption str? (part? fields "doc") = some doc := by
  refine OptionField.optional_eq h ?_ ?_
  · rintro text j rfl
    simp
  · rintro text ⟨_, _⟩ rfl
    rfl

/-- An expression that may be missing is read back. -/
theorem Expr.optional_eq {key : String} {e : Option Expr} {fields : List (String × Json)}
    (h : OptionField key Expr.Spelling e fields) :
    decodeOption Expr.decode (part? fields key) = some e :=
  OptionField.optional_eq h (fun _ _ => Expr.Spelling.ne_null)
    fun _ _ hpart => Expr.decode_of_spelling hpart

/-- A list of spellings is read as what is spelled. -/
theorem decodeList_eq {α : Type} {kind : α → Json → Prop} {read : Json → Option α}
    {xs : List α} {js : List Json} (h : List.Forall₂ kind xs js)
    (hread : ∀ x j, kind x j → read j = some x) :
    decodeList read (.arr js) = some xs :=
  (list?_eq read js).trans (mapM_eq h hread)

/-- A list of names is read back. -/
theorem Ident.decodeList_eq {ns : List Ident} {js : List Json} (h : Ident.Spellings ns js) :
    decodeList Ident.decode (.arr js) = some ns :=
  HdlSim.decodeList_eq h fun n _ hj => hj ▸ n.decode_encode

/-- A spelling of a variable is read as the variable. -/
theorem Variable.decode_of_spelling {v : Variable} {j : Json} (h : v.Spelling j) :
    Variable.decode j = some v := by
  obtain ⟨_, rfl, hname, hdoc, htype, hvalue, hconst, hdirection⟩ := h
  obtain ⟨⟨_, _⟩, hname, rfl⟩ := hname.part
  obtain ⟨⟨_, _⟩, hpart, htype⟩ := htype.part
  obtain ⟨⟨_, _⟩, hconst, rfl⟩ := hconst.part
  refine read_then (record?_eq (.cons hname (.cons rfl (.cons hpart (.cons rfl
    (.cons hconst (.cons rfl .nil))))))) (read_then v.name.decode_encode (read_then hdoc.optional_eq
    (read_then (Ty.decode_of_spelling htype) (read_then (Expr.optional_eq hvalue)
    (read_then rfl (read_then (OptionField.optional_eq hdirection ?_ ?_) rfl))))))
  · rintro d j rfl
    simp
  · rintro d ⟨_, _⟩ rfl
    exact d.decode_tag

/-- A spelling of an enumeration is read as the enumeration. -/
theorem EnumDecl.decode_of_spelling {d : EnumDecl} {j : Json} (h : d.Spelling j) :
    EnumDecl.decode j = some d := by
  obtain ⟨_, rfl, hname, hdoc, hmembers⟩ := h
  obtain ⟨⟨_, _⟩, hname, rfl⟩ := hname.part
  obtain ⟨⟨_, _⟩, hpart, _, rfl, hmembers⟩ := hmembers.part
  exact read_then (record?_eq (.cons hname (.cons rfl (.cons hpart .nil))))
    (read_then d.name.decode_encode (read_then hdoc.optional_eq (read_then
      ((list?_eq EnumMember.decode _).trans (EnumMember.decode_of_spellings hmembers)) rfl)))

/-- A spelling of an array type is read as the type. -/
theorem ArrayDecl.decode_of_spelling {d : ArrayDecl} {j : Json} (h : d.Spelling j) :
    ArrayDecl.decode j = some d := by
  obtain ⟨_, rfl, hname, hdoc, helement, hsize⟩ := h
  obtain ⟨⟨_, _⟩, hname, rfl⟩ := hname.part
  obtain ⟨⟨_, _⟩, hpart, helement⟩ := helement.part
  obtain ⟨⟨_, _⟩, hsizePart, hsize⟩ := hsize.part
  exact read_then (record?_eq (.cons hname (.cons rfl (.cons hpart (.cons hsizePart .nil)))))
    (read_then d.name.decode_encode (read_then hdoc.optional_eq (read_then
      (Ty.decode_of_spelling helement) (read_then (Expr.decode_of_spelling hsize) rfl))))

/-- A spelling of a process is read as the process. -/
theorem ProcessDecl.decode_of_spelling {p : ProcessDecl} {j : Json} (h : p.Spelling j) :
    ProcessDecl.decode j = some p := by
  obtain ⟨_, rfl, hlabel, hdoc, hsensitivity, hbody, houtputs⟩ := h
  obtain ⟨⟨_, _⟩, hlabel, rfl⟩ := hlabel.part
  obtain ⟨⟨_, _⟩, hpart, _, rfl, hsensitivity⟩ := hsensitivity.part
  obtain ⟨⟨_, _⟩, hbodyPart, _, rfl, hbody⟩ := hbody.part
  refine read_then (record?_eq (.cons hlabel (.cons rfl (.cons hpart (.cons hbodyPart
    (.cons rfl .nil)))))) (read_then p.label.decode_encode (read_then hdoc.optional_eq (read_then
    ((list?_eq Expr.decode _).trans (Expr.decode_of_spellings hsensitivity)) (read_then
    ((list?_eq Stmt.decode _).trans (Stmt.decode_of_spellings hbody)) (read_then
    (OptionField.optional_eq houtputs (fun _ _ => Items.ne_null) ?_) rfl)))))
  rintro ns ⟨_, _⟩ ⟨_, rfl, hns⟩
  exact Ident.decodeList_eq hns

/-- A spelling of a connection is read as the connection. -/
theorem PortBinding.decode_of_spelling (b : PortBinding) (j : Json) (h : b.Spelling j) :
    PortBinding.decode j = some b := by
  obtain ⟨_, rfl, hport, hsignal⟩ := h
  obtain ⟨⟨_, _⟩, hport, rfl⟩ := hport.part
  obtain ⟨⟨_, _⟩, hsignal, rfl⟩ := hsignal.part
  exact read_then (record?_eq (.cons hport (.cons hsignal .nil)))
    (read_then b.port.decode_encode (read_then b.signal.decode_encode rfl))

/-- A spelling of an instance is read as the instance. -/
theorem Instance.decode_of_spelling {i : Instance} {j : Json} (h : i.Spelling j) :
    Instance.decode j = some i := by
  obtain ⟨_, rfl, hname, hmodule, hdoc, hports⟩ := h
  obtain ⟨⟨_, _⟩, hname, rfl⟩ := hname.part
  obtain ⟨⟨_, _⟩, hmodule, rfl⟩ := hmodule.part
  obtain ⟨⟨_, _⟩, hpart, _, rfl, hports⟩ := hports.part
  exact read_then (record?_eq (.cons hname (.cons hmodule (.cons rfl (.cons hpart .nil)))))
    (read_then i.name.decode_encode (read_then i.moduleName.decode_encode
      (read_then hdoc.optional_eq
        (read_then (decodeList_eq hports PortBinding.decode_of_spelling) rfl))))

/-- A spelling of a function is read as the function. -/
theorem FunctionDecl.decode_of_spelling {f : FunctionDecl} {j : Json} (h : f.Spelling j) :
    FunctionDecl.decode j = some f := by
  obtain ⟨_, rfl, hname, hparams, hbody⟩ := h
  obtain ⟨⟨_, _⟩, hname, rfl⟩ := hname.part
  obtain ⟨⟨_, _⟩, hpart, _, rfl, hparams⟩ := hparams.part
  obtain ⟨⟨_, _⟩, hbodyPart, _, rfl, hbody⟩ := hbody.part
  exact read_then (record?_eq (.cons hname (.cons hpart (.cons hbodyPart .nil))))
    (read_then f.name.decode_encode (read_then (Ident.decodeList_eq hparams) (read_then
      ((list?_eq Stmt.decode _).trans (Stmt.decode_of_spellings hbody)) rfl)))

/-- A spelling of a generic is read as the generic. -/
theorem Generic.decode_of_spelling (g : Generic) (j : Json) (h : g.Spelling j) :
    Generic.decode j = some g := by
  obtain ⟨_, rfl, hname, htype, hdefault⟩ := h
  obtain ⟨⟨_, _⟩, hname, rfl⟩ := hname.part
  obtain ⟨⟨_, _⟩, hpart, htype⟩ := htype.part
  exact read_then (record?_eq (.cons hname (.cons hpart (.cons rfl .nil))))
    (read_then g.name.decode_encode (read_then (Ty.decode_of_spelling htype)
      (read_then (Expr.optional_eq hdefault) rfl)))

/-- A spelling of an item is read as the item. -/
theorem Item.decode_of_spelling : ∀ (item : Item) (j : Json), item.Spelling j →
    Item.decode j = some item
  | .enumType _, _, ⟨_, rfl, h⟩ =>
      read_then rfl (read_then (EnumDecl.decode_of_spelling h) rfl)
  | .arrayType _, _, ⟨_, rfl, h⟩ =>
      read_then rfl (read_then (ArrayDecl.decode_of_spelling h) rfl)
  | .varDecl _, _, ⟨_, rfl, h⟩ =>
      read_then rfl (read_then (Variable.decode_of_spelling h) rfl)
  | .process _, _, ⟨_, rfl, h⟩ =>
      read_then rfl (read_then (ProcessDecl.decode_of_spelling h) rfl)
  | .subunit _, _, ⟨_, rfl, h⟩ =>
      read_then rfl (read_then (Instance.decode_of_spelling h) rfl)
  | .function _, _, ⟨_, rfl, h⟩ =>
      read_then rfl (read_then (FunctionDecl.decode_of_spelling h) rfl)

/-- **Modules.** A spelling of a module is read as the module. -/
theorem Module.decode_of_spelling {m : Module} {j : Json} (h : m.Spelling j) :
    Module.decode j = some m := by
  obtain ⟨_, rfl, hname, hdoc, hparams, hports, hitems⟩ := h
  obtain ⟨⟨_, _⟩, hname, rfl⟩ := hname.part
  obtain ⟨⟨_, _⟩, hparamsPart, _, rfl, hparams⟩ := hparams.part
  obtain ⟨⟨_, _⟩, hportsPart, _, rfl, hports⟩ := hports.part
  obtain ⟨⟨_, _⟩, hitemsPart, _, rfl, hitems⟩ := hitems.part
  exact read_then (record?_eq (.cons hname (.cons rfl (.cons hparamsPart (.cons hportsPart
    (.cons hitemsPart .nil)))))) (read_then m.name.decode_encode (read_then hdoc.optional_eq
    (read_then (decodeList_eq hparams Generic.decode_of_spelling)
    (read_then (decodeList_eq hports fun _ _ => Variable.decode_of_spelling)
    (read_then (decodeList_eq hitems Item.decode_of_spelling) rfl)))))

/-! ### Encodings are spellings -/

theorem Literal.spelling_encode : ∀ v : Literal, v.Spelling v.encode
  | .int _ => ⟨_, rfl, rfl⟩
  | .bits _ _ => ⟨_, rfl, _, rfl, ⟨_, rfl, rfl⟩, ⟨_, rfl, rfl⟩⟩
  | .bool _ => ⟨_, rfl, rfl⟩
  | .str _ => ⟨_, rfl, rfl⟩

mutual

/-- An expression is spelled by its encoding. -/
theorem Expr.spelling_encode : ∀ e : Expr, e.Spelling e.encode
  | .name _ => ⟨_, rfl, rfl⟩
  | .literal v => ⟨_, rfl, v.spelling_encode⟩
  | .unary _ a => ⟨_, rfl, _, rfl, ⟨_, rfl, rfl⟩, ⟨_, rfl, a.spelling_encode⟩⟩
  | .binary _ a b =>
      ⟨_, rfl, _, rfl, ⟨_, rfl, rfl⟩, ⟨_, rfl, a.spelling_encode⟩, ⟨_, rfl, b.spelling_encode⟩⟩
  | .ternary c a b =>
      ⟨_, rfl, _, rfl, ⟨_, rfl, c.spelling_encode⟩, ⟨_, rfl, a.spelling_encode⟩,
        ⟨_, rfl, b.spelling_encode⟩⟩
  | .index a i => ⟨_, rfl, _, rfl, ⟨_, rfl, a.spelling_encode⟩, ⟨_, rfl, i.spelling_encode⟩⟩
  | .slice a h l =>
      ⟨_, rfl, _, rfl, ⟨_, rfl, a.spelling_encode⟩, ⟨_, rfl, h.spelling_encode⟩,
        ⟨_, rfl, l.spelling_encode⟩⟩
  | .concat parts => ⟨_, rfl, _, rfl, Expr.spellings_encode parts⟩
  | .cast a t => ⟨_, rfl, _, rfl, ⟨_, rfl, a.spelling_encode⟩, ⟨_, rfl, t.spelling_encode⟩⟩
  | .call _ args =>
      ⟨_, rfl, _, rfl, ⟨_, rfl, rfl⟩, ⟨_, rfl, _, rfl, Expr.spellings_encode args⟩⟩
  | .edge _ a => ⟨_, rfl, _, rfl, ⟨_, rfl, rfl⟩, ⟨_, rfl, a.spelling_encode⟩⟩
  | .type t => ⟨_, rfl, t.spelling_encode⟩

/-- A type is spelled by its encoding. -/
theorem Ty.spelling_encode : ∀ t : Ty, t.Spelling t.encode
  | .bits _ _ => ⟨_, rfl, _, rfl, ⟨_, rfl, rfl⟩, ⟨_, rfl, rfl⟩⟩
  | .enum members => ⟨_, rfl, _, rfl, ⟨_, rfl, _, rfl, EnumMember.spellings_encode members⟩⟩
  | .array t size =>
      ⟨_, rfl, _, rfl, ⟨_, rfl, t.spelling_encode⟩, ⟨_, rfl, size.spelling_encode⟩⟩
  | .named _ => ⟨_, rfl, rfl⟩
  | .typeOfTypes => rfl

theorem EnumMember.spelling_encode : ∀ m : EnumMember, m.Spelling m.encode
  | ⟨_, none⟩ => ⟨_, rfl, ⟨_, rfl, rfl⟩, .inr rfl⟩
  | ⟨_, some e⟩ => ⟨_, rfl, ⟨_, rfl, rfl⟩, ⟨_, rfl, e.spelling_encode⟩⟩

theorem Expr.spellings_encode : ∀ es : List Expr, Expr.Spellings es (Expr.encodeList es)
  | [] => rfl
  | e :: es => ⟨_, _, rfl, e.spelling_encode, Expr.spellings_encode es⟩

theorem EnumMember.spellings_encode :
    ∀ ms : List EnumMember, EnumMember.Spellings ms (EnumMember.encodeList ms)
  | [] => rfl
  | m :: ms => ⟨_, _, rfl, m.spelling_encode, EnumMember.spellings_encode ms⟩

end

mutual

/-- A statement is spelled by its encoding. -/
theorem Stmt.spelling_encode : ∀ st : Stmt, st.Spelling st.encode
  | .assign t v => ⟨_, rfl, _, rfl, ⟨_, rfl, t.spelling_encode⟩, ⟨_, rfl, v.spelling_encode⟩⟩
  | .ifElse branches none =>
      ⟨_, rfl, _, rfl, ⟨_, rfl, _, rfl, IfBranch.spellings_encode branches⟩, .inr rfl⟩
  | .ifElse branches (some body) =>
      ⟨_, rfl, _, rfl, ⟨_, rfl, _, rfl, IfBranch.spellings_encode branches⟩,
        ⟨_, rfl, _, rfl, Stmt.spellings_encode body⟩⟩
  | .case selector arms none =>
      ⟨_, rfl, _, rfl, ⟨_, rfl, selector.spelling_encode⟩,
        ⟨_, rfl, _, rfl, CaseArm.spellings_encode arms⟩, .inr rfl⟩
  | .case selector arms (some body) =>
      ⟨_, rfl, _, rfl, ⟨_, rfl, selector.spelling_encode⟩,
        ⟨_, rfl, _, rfl, CaseArm.spellings_encode arms⟩,
        ⟨_, rfl, _, rfl, Stmt.spellings_encode body⟩⟩
  | .block body => ⟨_, rfl, _, rfl, Stmt.spellings_encode body⟩
  | .null => rfl

theorem Stmt.spellings_encode : ∀ body : List Stmt, Stmt.Spellings body (Stmt.encodeList body)
  | [] => rfl
  | st :: rest => ⟨_, _, rfl, st.spelling_encode, Stmt.spellings_encode rest⟩

theorem IfBranch.spellings_encode :
    ∀ branches : List IfBranch, IfBranch.Spellings branches (IfBranch.encodeList branches)
  | [] => rfl
  | ⟨condition, body⟩ :: rest =>
      ⟨_, _, rfl, ⟨_, rfl, ⟨_, rfl, condition.spelling_encode⟩,
        ⟨_, rfl, _, rfl, Stmt.spellings_encode body⟩⟩, IfBranch.spellings_encode rest⟩

theorem CaseArm.spellings_encode :
    ∀ arms : List CaseArm, CaseArm.Spellings arms (CaseArm.encodeList arms)
  | [] => rfl
  | ⟨choices, body⟩ :: rest =>
      ⟨_, _, rfl, ⟨_, rfl, ⟨_, rfl, _, rfl, Expr.spellings_encode choices⟩,
        ⟨_, rfl, _, rfl, Stmt.spellings_encode body⟩⟩, CaseArm.spellings_encode rest⟩

end

/-- Where there is no value the encoder writes `null`. -/
theorem Json.optionField_encode {α : Type} {key : String} {kind : α → Json → Prop}
    {fields : List (String × Json)} {x : Option α} (encode : α → Json)
    (h : ∀ a, kind a (encode a)) (hunder : under key fields = [ofOption encode x]) :
    OptionField key kind x fields := by
  cases x with
  | none => exact .inr hunder
  | some a => exact ⟨_, hunder, h a⟩

/-- An expression that may be missing is encoded like any other value that may be. -/
theorem Expr.encodeOption_eq (e : Option Expr) :
    Expr.encodeOption e = ofOption Expr.encode e := by
  cases e <;> rfl

/-- A list is spelled item by item. -/
theorem Json.forall₂_encode {α : Type} {kind : α → Json → Prop} {encode : α → Json}
    (h : ∀ a, kind a (encode a)) (xs : List α) : List.Forall₂ kind xs (xs.map encode) :=
  List.forall₂_map_right_iff.2 (List.forall₂_same.2 fun a _ => h a)

/-- A documentation is spelled by its encoding. -/
theorem docField_encode {doc : Option String} {fields : List (String × Json)}
    (hunder : under "doc" fields = [ofOption .str doc]) : DocField doc fields :=
  optionField_encode .str (fun _ => rfl) hunder

theorem Ident.spellings_encode (ns : List Ident) : Ident.Spellings ns (ns.map Ident.encode) := by
  refine forall₂_encode ?_ ns
  exact fun _ => rfl

/-- A variable is spelled by its encoding. -/
theorem Variable.spelling_encode (v : Variable) : v.Spelling v.encode := by
  refine ⟨_, rfl, ⟨_, rfl, rfl⟩, docField_encode rfl,
    ⟨_, rfl, v.type.spelling_encode⟩, ?_, ⟨_, rfl, rfl⟩,
    optionField_encode (fun d => .str d.tag) (fun _ => rfl) rfl⟩
  rw [Expr.encodeOption_eq]
  exact optionField_encode Expr.encode Expr.spelling_encode rfl

theorem EnumDecl.spelling_encode (d : EnumDecl) : d.Spelling d.encode :=
  ⟨_, rfl, ⟨_, rfl, rfl⟩, docField_encode rfl,
    ⟨_, rfl, _, rfl, EnumMember.spellings_encode d.members⟩⟩

theorem ArrayDecl.spelling_encode (d : ArrayDecl) : d.Spelling d.encode :=
  ⟨_, rfl, ⟨_, rfl, rfl⟩, docField_encode rfl,
    ⟨_, rfl, d.element.spelling_encode⟩, ⟨_, rfl, d.size.spelling_encode⟩⟩

theorem ProcessDecl.spelling_encode (p : ProcessDecl) : p.Spelling p.encode :=
  ⟨_, rfl, ⟨_, rfl, rfl⟩, docField_encode rfl,
    ⟨_, rfl, _, rfl, Expr.spellings_encode p.sensitivity⟩,
    ⟨_, rfl, _, rfl, Stmt.spellings_encode p.body⟩,
    optionField_encode (fun ns => .arr (ns.map Ident.encode))
      (fun ns => ⟨_, rfl, Ident.spellings_encode ns⟩) rfl⟩

theorem PortBinding.spelling_encode (b : PortBinding) : b.Spelling b.encode :=
  ⟨_, rfl, ⟨_, rfl, rfl⟩, ⟨_, rfl, rfl⟩⟩

theorem Instance.spelling_encode (i : Instance) : i.Spelling i.encode :=
  ⟨_, rfl, ⟨_, rfl, rfl⟩, ⟨_, rfl, rfl⟩, docField_encode rfl,
    ⟨_, rfl, _, rfl, forall₂_encode PortBinding.spelling_encode i.portMap⟩⟩

theorem FunctionDecl.spelling_encode (f : FunctionDecl) : f.Spelling f.encode :=
  ⟨_, rfl, ⟨_, rfl, rfl⟩, ⟨_, rfl, _, rfl, Ident.spellings_encode f.params⟩,
    ⟨_, rfl, _, rfl, Stmt.spellings_encode f.body⟩⟩

theorem Generic.spelling_encode (g : Generic) : g.Spelling g.encode := by
  refine ⟨_, rfl, ⟨_, rfl, rfl⟩, ⟨_, rfl, g.type.spelling_encode⟩, ?_⟩
  rw [Expr.encodeOption_eq]
  exact optionField_encode Expr.encode Expr.spelling_encode rfl

/-- An item is spelled by its encoding. -/
theorem Item.spelling_encode : ∀ item : Item, item.Spelling item.encode
  | .enumType d => ⟨_, rfl, d.spelling_encode⟩
  | .arrayType d => ⟨_, rfl, d.spelling_encode⟩
  | .varDecl d => ⟨_, rfl, d.spelling_encode⟩
  | .process p => ⟨_, rfl, p.spelling_encode⟩
  | .subunit i => ⟨_, rfl, i.spelling_encode⟩
  | .function f => ⟨_, rfl, f.spelling_encode⟩

/-- **Modules.** A module is spelled by its encoding. -/
theorem Module.spelling_encode (m : Module) : m.Spelling m.encode :=
  ⟨_, rfl, ⟨_, rfl, rfl⟩, docField_encode rfl,
    ⟨_, rfl, _, rfl, forall₂_encode Generic.spelling_encode m.params⟩,
    ⟨_, rfl, _, rfl, forall₂_encode Variable.spelling_encode m.ports⟩,
    ⟨_, rfl, _, rfl, forall₂_encode Item.spelling_encode m.items⟩⟩

/-! ### There and back -/

/-- **Interchange.**  What the encoder writes is a spelling, every spelling is read as the value
that it stands for, and what was read is read again from its encoding. -/
structure Interchange {α : Type} (encode : α → Json) (decode : Json → Option α)
    (Spelling : α → Json → Prop) : Prop where
  encoded : ∀ a, Spelling a (encode a)
  decoded : ∀ a j, Spelling a j → decode j = some a
  reencoded : ∀ j a, decode j = some a → decode (encode a) = some a

/-- What is encoded is read back, and so is every other spelling of it. -/
theorem interchange_of_spelling {α : Type} {encode : α → Json} {decode : Json → Option α}
    {Spelling : α → Json → Prop} (hencode : ∀ a, Spelling a (encode a))
    (hdecode : ∀ a j, Spelling a j → decode j = some a) : Interchange encode decode Spelling :=
  ⟨hencode, hdecode, fun _ a _ => hdecode a _ (hencode a)⟩

/-- **Designs there and back**, for every kind of tree that a design is made of. -/
theorem designs_interchange :
    Interchange Literal.encode Literal.decode Literal.Spelling ∧
    Interchange Expr.encode Expr.decode Expr.Spelling ∧
    Interchange Ty.encode Ty.decode Ty.Spelling ∧
    Interchange EnumMember.encode EnumMember.decode EnumMember.Spelling ∧
    Interchange Stmt.encode Stmt.decode Stmt.Spelling ∧
    Interchange Variable.encode Variable.decode Variable.Spelling ∧
    Interchange EnumDecl.encode EnumDecl.decode EnumDecl.Spelling ∧
    Interchange ArrayDecl.encode ArrayDecl.decode ArrayDecl.Spelling ∧
    Interchange ProcessDecl.encode ProcessDecl.decode ProcessDecl.Spelling ∧
    Interchange Instance.encode Instance.decode Instance.Spelling ∧
    Interchange FunctionDecl.encode FunctionDecl.decode FunctionDecl.Spelling ∧
    Interchange Generic.encode Generic.decode Generic.Spelling ∧
    Interchange Item.encode Item.decode Item.Spelling ∧
    Interchange Module.encode Module.decode Module.Spelling :=
  ⟨interchange_of_spelling Literal.spelling_encode fun _ _ => Literal.decode_of_spelling,
    interchange_of_spelling Expr.spelling_encode fun _ _ => Expr.decode_of_spelling,
    interchange_of_spelling Ty.spelling_encode fun _ _ => Ty.decode_of_spelling,
    interchange_of_spelling EnumMember.spelling_encode fun _ _ => EnumMember.decode_of_spelling,
    interchange_of_spelling Stmt.spelling_encode fun _ _ => Stmt.decode_of_spelling,
    interchange_of_spelling Variable.spelling_encode fun _ _ => Variable.decode_of_spelling,
    interchange_of_spelling EnumDecl.spelling_encode fun _ _ => EnumDecl.decode_of_spelling,
    interchange_of_spelling ArrayDecl.spelling_encode fun _ _ => ArrayDecl.decode_of_spelling,
    interchange_of_spelling ProcessDecl.spelling_encode fun _ _ => ProcessDecl.decode_of_spelling,
    interchange_of_spelling Instance.spelling_encode fun _ _ => Instance.decode_of_spelling,
    interchange_of_spelling FunctionDecl.spelling_encode fun _ _ => FunctionDecl.decode_of_spelling,
    interchange_of_spelling Generic.spelling_encode Generic.decode_of_spelling,
    interchange_of_spelling Item.spelling_encode Item.decode_of_spelling,
    interchange_of_spelling Module.spelling_encode fun _ _ => Module.decode_of_spelling⟩

end HdlSim
