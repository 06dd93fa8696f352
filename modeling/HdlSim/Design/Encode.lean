import HdlSim.Design.Module
import HdlSim.Json

/-!
# Designs as JSON values

Structures are objects with all their fields, an absent value being `null`; alternatives are
objects with the alternative's tag as their only key, or just the tag where there is no content.
-/

namespace HdlSim

open Json (tagged)

/-- An interned name is written as its number. -/
def Ident.encode (n : Ident) : Json := .int n.index.toNat

/-- The tag of an operator on one operand. -/
def UnaryOp.tag : UnaryOp → String
  | .not => "Not"
  | .neg => "Neg"
  | .logicNot => "LogicNot"
  | .redAnd => "RedAnd"
  | .redOr => "RedOr"
  | .redXor => "RedXor"

/-- The tag of an operator on two operands. -/
def BinaryOp.tag : BinaryOp → String
  | .add => "Add"
  | .sub => "Sub"
  | .mul => "Mul"
  | .div => "Div"
  | .mod => "Mod"
  | .pow => "Pow"
  | .and => "And"
  | .or => "Or"
  | .xor => "Xor"
  | .shl => "Shl"
  | .shr => "Shr"
  | .eq => "Eq"
  | .ne => "Ne"
  | .lt => "Lt"
  | .le => "Le"
  | .gt => "Gt"
  | .ge => "Ge"
  | .logicAnd => "LogicAnd"
  | .logicOr => "LogicOr"

/-- The tag of a transition. -/
def ClockEdge.tag : ClockEdge → String
  | .rising => "Rising"
  | .falling => "Falling"

/-- The tag of a direction. -/
def Direction.tag : Direction → String
  | .input => "Input"
  | .output => "Output"
  | .inOut => "InOut"

/-- A constant as JSON. -/
def Literal.encode : Literal → Json
  | .int v => tagged "Int" (.int v.toInt)
  | .bits width digits =>
    tagged "Bits" (.obj [("width", .int width.toNat), ("digits", .str digits)])
  | .bool b => tagged "Bool" (.bool b)
  | .str s => tagged "Str" (.str s)

mutual

/-- An expression as JSON. -/
def Expr.encode : Expr → Json
  | .name n => tagged "Name" n.encode
  | .literal v => tagged "Literal" v.encode
  | .unary op a => tagged "Unary" (.obj [("op", .str op.tag), ("operand", a.encode)])
  | .binary op a b =>
    tagged "Binary" (.obj [("op", .str op.tag), ("lhs", a.encode), ("rhs", b.encode)])
  | .ternary c a b =>
    tagged "Ternary"
      (.obj [("condition", c.encode), ("if_true", a.encode), ("if_false", b.encode)])
  | .index a i => tagged "Index" (.obj [("base", a.encode), ("index", i.encode)])
  | .slice a h l =>
    tagged "Slice" (.obj [("base", a.encode), ("high", h.encode), ("low", l.encode)])
  | .concat parts => tagged "Concat" (.arr (Expr.encodeList parts))
  | .cast a t => tagged "Cast" (.obj [("expr", a.encode), ("ty", t.encode)])
  | .call f args =>
    tagged "Call" (.obj [("function", f.encode), ("args", .arr (Expr.encodeList args))])
  | .edge k a => tagged "Edge" (.obj [("edge", .str k.tag), ("signal", a.encode)])
  | .type t => tagged "Type" t.encode

/-- A type as JSON. -/
def Ty.encode : Ty → Json
  | .bits width signed =>
    tagged "Bits" (.obj [("width", .int width.toNat), ("signed", .bool signed)])
  | .enum members => tagged "Enum" (.obj [("members", .arr (EnumMember.encodeList members))])
  | .array t size => tagged "Array" (.obj [("element", t.encode), ("size", size.encode)])
  | .named n => tagged "Named" n.encode
  | .typeOfTypes => .str "Meta"

/-- A member of an enumeration as JSON. -/
def EnumMember.encode : EnumMember → Json
  | ⟨name, value⟩ => .obj [("name", name.encode), ("value", Expr.encodeOption value)]

/-- Expressions as JSON, in order. -/
def Expr.encodeList : List Expr → List Json
  | [] => []
  | e :: es => e.encode :: Expr.encodeList es

/-- Members of an enumeration as JSON, in order. -/
def EnumMember.encodeList : List EnumMember → List Json
  | [] => []
  | m :: ms => m.encode :: EnumMember.encodeList ms

/-- An expression that may be absent as JSON. -/
def Expr.encodeOption : Option Expr → Json
  | none => .null
  | some e => e.encode

end

mutual

/-- A statement as JSON. -/
def Stmt.encode : Stmt → Json
  | .assign t v => tagged "Assign" (.obj [("target", t.encode), ("value", v.encode)])
  | .ifElse branches elseBody =>
    tagged "If"
      (.obj [("branches", .arr (IfBranch.encodeList branches)),
        ("else_body", Stmt.encodeOption elseBody)])
  | .case selector arms default =>
    tagged "Case"
      (.obj [("selector", selector.encode), ("arms", .arr (CaseArm.encodeList arms)),
        ("default", Stmt.encodeOption default)])
  | .block body => tagged "Block" (.arr (Stmt.encodeList body))
  | .null => .str "Null"

/-- Statements as JSON, in order. -/
def Stmt.encodeList : List Stmt → List Json
  | [] => []
  | s :: ss => s.encode :: Stmt.encodeList ss

/-- A body that may be absent as JSON. -/
def Stmt.encodeOption : Option (List Stmt) → Json
  | none => .null
  | some body => .arr (Stmt.encodeList body)

/-- Branches as JSON, in order. -/
def IfBranch.encodeList : List IfBranch → List Json
  | [] => []
  | ⟨condition, body⟩ :: rest =>
    .obj [("condition", condition.encode), ("body", .arr (Stmt.encodeList body))] ::
      IfBranch.encodeList rest

/-- Arms as JSON, in order. -/
def CaseArm.encodeList : List CaseArm → List Json
  | [] => []
  | ⟨choices, body⟩ :: rest =>
    .obj [("choices", .arr (Expr.encodeList choices)), ("body", .arr (Stmt.encodeList body))] ::
      CaseArm.encodeList rest

end

/-- A documentation text as JSON. -/
def encodeDoc : Option String → Json := Json.ofOption .str

/-- A declaration as JSON. -/
def Variable.encode (v : Variable) : Json :=
  .obj [("name", v.name.encode), ("doc", encodeDoc v.doc), ("ty", v.type.encode),
    ("value", Expr.encodeOption v.value), ("is_const", .bool v.isConst),
    ("direction", Json.ofOption (fun d => .str d.tag) v.direction)]

/-- A named enumeration as JSON. -/
def EnumDecl.encode (d : EnumDecl) : Json :=
  .obj [("name", d.name.encode), ("doc", encodeDoc d.doc),
    ("members", .arr (EnumMember.encodeList d.members))]

/-- A named array type as JSON. -/
def ArrayDecl.encode (d : ArrayDecl) : Json :=
  .obj [("name", d.name.encode), ("doc", encodeDoc d.doc), ("element", d.element.encode),
    ("size", d.size.encode)]

/-- A process as JSON. -/
def ProcessDecl.encode (p : ProcessDecl) : Json :=
  .obj [("label", p.label.encode), ("doc", encodeDoc p.doc),
    ("sensitivity", .arr (Expr.encodeList p.sensitivity)),
    ("body", .arr (Stmt.encodeList p.body)),
    ("outputs", Json.ofOption (fun names => .arr (names.map Ident.encode)) p.outputs)]

/-- A port binding as JSON. -/
def PortBinding.encode (b : PortBinding) : Json :=
  .obj [("port", b.port.encode), ("signal", b.signal.encode)]

/-- An instance as JSON. -/
def Instance.encode (i : Instance) : Json :=
  .obj [("name", i.name.encode), ("module_name", i.moduleName.encode), ("doc", encodeDoc i.doc),
    ("port_map", .arr (i.portMap.map PortBinding.encode))]

/-- A function as JSON. -/
def FunctionDecl.encode (f : FunctionDecl) : Json :=
  .obj [("name", f.name.encode), ("params", .arr (f.params.map Ident.encode)),
    ("body", .arr (Stmt.encodeList f.body))]

/-- A generic parameter as JSON. -/
def Generic.encode (g : Generic) : Json :=
  .obj [("name", g.name.encode), ("ty", g.type.encode),
    ("default", Expr.encodeOption g.default)]

/-- An item as JSON. -/
def Item.encode : Item → Json
  | .enumType d => tagged "EnumType" d.encode
  | .arrayType d => tagged "ArrayType" d.encode
  | .varDecl d => tagged "Variable" d.encode
  | .process p => tagged "Process" p.encode
  | .subunit i => tagged "Component" i.encode
  | .function f => tagged "Function" f.encode

/-- A module as JSON. -/
def Module.encode (m : Module) : Json :=
  .obj [("name", m.name.encode), ("doc", encodeDoc m.doc),
    ("params", .arr (m.params.map Generic.encode)),
    ("ports", .arr (m.ports.map Variable.encode)),
    ("items", .arr (m.items.map Item.encode))]

end HdlSim
