import HdlSim.Design.Module
import HdlSim.Json

/-!
# Reading designs from JSON values

Each reader accepts what the encoder writes, and also records given as arrays, keys left out where
a value may be absent, and keys that no field has.  Everything else is refused: a missing field, a
value of another kind, an unknown tag, a number out of range.
-/

namespace HdlSim

/-- An interned name is read from its number. -/
def Ident.decode (j : Json) : Option Ident := j.uint32?.map Ident.mk

/-- Reads an operator on one operand. -/
def UnaryOp.decode (j : Json) : Option UnaryOp :=
  match j.unitTag? with
  | some "Not" => some .not
  | some "Neg" => some .neg
  | some "LogicNot" => some .logicNot
  | some "RedAnd" => some .redAnd
  | some "RedOr" => some .redOr
  | some "RedXor" => some .redXor
  | _ => none

/-- Reads an operator on two operands. -/
def BinaryOp.decode (j : Json) : Option BinaryOp :=
  match j.unitTag? with
  | some "Add" => some .add
  | some "Sub" => some .sub
  | some "Mul" => some .mul
  | some "Div" => some .div
  | some "Mod" => some .mod
  | some "Pow" => some .pow
  | some "And" => some .and
  | some "Or" => some .or
  | some "Xor" => some .xor
  | some "Shl" => some .shl
  | some "Shr" => some .shr
  | some "Eq" => some .eq
  | some "Ne" => some .ne
  | some "Lt" => some .lt
  | some "Le" => some .le
  | some "Gt" => some .gt
  | some "Ge" => some .ge
  | some "LogicAnd" => some .logicAnd
  | some "LogicOr" => some .logicOr
  | _ => none

/-- Reads a transition. -/
def ClockEdge.decode (j : Json) : Option ClockEdge :=
  match j.unitTag? with
  | some "Rising" => some .rising
  | some "Falling" => some .falling
  | _ => none

/-- Reads a direction. -/
def Direction.decode (j : Json) : Option Direction :=
  match j.unitTag? with
  | some "Input" => some .input
  | some "Output" => some .output
  | some "InOut" => some .inOut
  | _ => none

/-- Reads a constant. -/
def Literal.decode (j : Json) : Option Literal := do
  match ← j.variant? with
  | ("Int", some v) => return .int (← v.1.int64?)
  | ("Bits", some content) =>
    match ← content.1.fields? ["width", "digits"] with
    | [some width, some digits] => return .bits (← width.1.uint32?) (← digits.1.str?)
    | _ => none
  | ("Bool", some v) => return .bool (← v.1.bool?)
  | ("Str", some v) => return .str (← v.1.str?)
  | _ => none

mutual

/-- Reads an expression. -/
def Expr.decode (j : Json) : Option Expr := do
  match ← j.variant? with
  | ("Name", some ⟨n, _⟩) => return .name (← Ident.decode n)
  | ("Literal", some ⟨v, _⟩) => return .literal (← Literal.decode v)
  | ("Unary", some ⟨content, _⟩) =>
    match ← content.fields? ["op", "operand"] with
    | [some ⟨op, _⟩, some ⟨a, _⟩] => return .unary (← UnaryOp.decode op) (← Expr.decode a)
    | _ => none
  | ("Binary", some ⟨content, _⟩) =>
    match ← content.fields? ["op", "lhs", "rhs"] with
    | [some ⟨op, _⟩, some ⟨a, _⟩, some ⟨b, _⟩] =>
      return .binary (← BinaryOp.decode op) (← Expr.decode a) (← Expr.decode b)
    | _ => none
  | ("Ternary", some ⟨content, _⟩) =>
    match ← content.fields? ["condition", "if_true", "if_false"] with
    | [some ⟨c, _⟩, some ⟨a, _⟩, some ⟨b, _⟩] =>
      return .ternary (← Expr.decode c) (← Expr.decode a) (← Expr.decode b)
    | _ => none
  | ("Index", some ⟨content, _⟩) =>
    match ← content.fields? ["base", "index"] with
    | [some ⟨a, _⟩, some ⟨i, _⟩] => return .index (← Expr.decode a) (← Expr.decode i)
    | _ => none
  | ("Slice", some ⟨content, _⟩) =>
    match ← content.fields? ["base", "high", "low"] with
    | [some ⟨a, _⟩, some ⟨h, _⟩, some ⟨l, _⟩] =>
      return .slice (← Expr.decode a) (← Expr.decode h) (← Expr.decode l)
    | _ => none
  | ("Concat", some ⟨content, _⟩) =>
    return .concat (← content.list? fun ⟨v, _⟩ => Expr.decode v)
  | ("Cast", some ⟨content, _⟩) =>
    match ← content.fields? ["expr", "ty"] with
    | [some ⟨a, _⟩, some ⟨t, _⟩] => return .cast (← Expr.decode a) (← Ty.decode t)
    | _ => none
  | ("Call", some ⟨content, _⟩) =>
    match ← content.fields? ["function", "args"] with
    | [some ⟨f, _⟩, some ⟨args, _⟩] =>
      return .call (← Ident.decode f) (← args.list? fun ⟨v, _⟩ => Expr.decode v)
    | _ => none
  | ("Edge", some ⟨content, _⟩) =>
    match ← content.fields? ["edge", "signal"] with
    | [some ⟨k, _⟩, some ⟨a, _⟩] => return .edge (← ClockEdge.decode k) (← Expr.decode a)
    | _ => none
  | ("Type", some ⟨t, _⟩) => return .type (← Ty.decode t)
  | _ => none
termination_by sizeOf j

/-- Reads a type. -/
def Ty.decode (j : Json) : Option Ty := do
  match ← j.variant? with
  | ("Bits", some ⟨content, _⟩) =>
    match ← content.fields? ["width", "signed"] with
    | [some ⟨width, _⟩, some ⟨signed, _⟩] => return .bits (← width.uint32?) (← signed.bool?)
    | _ => none
  | ("Enum", some ⟨content, _⟩) =>
    match ← content.fields? ["members"] with
    | [some ⟨members, _⟩] => return .enum (← members.list? fun ⟨v, _⟩ => EnumMember.decode v)
    | _ => none
  | ("Array", some ⟨content, _⟩) =>
    match ← content.fields? ["element", "size"] with
    | [some ⟨t, _⟩, some ⟨size, _⟩] => return .array (← Ty.decode t) (← Expr.decode size)
    | _ => none
  | ("Named", some ⟨n, _⟩) => return .named (← Ident.decode n)
  | ("Meta", none) => return .typeOfTypes
  | ("Meta", some ⟨.null, _⟩) => return .typeOfTypes
  | _ => none
termination_by sizeOf j

/-- Reads a member of an enumeration. -/
def EnumMember.decode (j : Json) : Option EnumMember := do
  match ← j.record? ["name", "value"] with
  | [some ⟨n, _⟩, value] =>
    return ⟨← Ident.decode n, ← Json.optional (fun ⟨v, _⟩ => Expr.decode v) value⟩
  | _ => none
termination_by sizeOf j

end

mutual

/-- Reads a statement. -/
def Stmt.decode (j : Json) : Option Stmt := do
  match ← j.variant? with
  | ("Assign", some ⟨content, _⟩) =>
    match ← content.fields? ["target", "value"] with
    | [some ⟨t, _⟩, some ⟨v, _⟩] => return .assign (← Expr.decode t) (← Expr.decode v)
    | _ => none
  | ("If", some ⟨content, _⟩) =>
    match ← content.fields? ["branches", "else_body"] with
    | [some ⟨branches, _⟩, elseBody] =>
      return .ifElse (← branches.list? fun ⟨v, _⟩ => IfBranch.decode v)
        (← Json.optional (fun ⟨v, _⟩ => v.list? fun ⟨w, _⟩ => Stmt.decode w) elseBody)
    | _ => none
  | ("Case", some ⟨content, _⟩) =>
    match ← content.fields? ["selector", "arms", "default"] with
    | [some ⟨selector, _⟩, some ⟨arms, _⟩, default] =>
      return .case (← Expr.decode selector) (← arms.list? fun ⟨v, _⟩ => CaseArm.decode v)
        (← Json.optional (fun ⟨v, _⟩ => v.list? fun ⟨w, _⟩ => Stmt.decode w) default)
    | _ => none
  | ("Block", some ⟨content, _⟩) => return .block (← content.list? fun ⟨v, _⟩ => Stmt.decode v)
  | ("Null", none) => return .null
  | ("Null", some ⟨.null, _⟩) => return .null
  | _ => none
termination_by sizeOf j

/-- Reads a branch. -/
def IfBranch.decode (j : Json) : Option IfBranch := do
  match ← j.record? ["condition", "body"] with
  | [some ⟨c, _⟩, some ⟨body, _⟩] =>
    return ⟨← Expr.decode c, ← body.list? fun ⟨v, _⟩ => Stmt.decode v⟩
  | _ => none
termination_by sizeOf j

/-- Reads an arm. -/
def CaseArm.decode (j : Json) : Option CaseArm := do
  match ← j.record? ["choices", "body"] with
  | [some ⟨choices, _⟩, some ⟨body, _⟩] =>
    return ⟨← choices.list? fun ⟨v, _⟩ => Expr.decode v, ← body.list? fun ⟨v, _⟩ => Stmt.decode v⟩
  | _ => none
termination_by sizeOf j

end

/-- Reads an array whose items are all of one kind. -/
def decodeList {α : Type} (read : Json → Option α) (j : Json) : Option (List α) :=
  j.list? fun v => read v.1

/-- Reads a field that may be absent. -/
def decodeOption {α : Type} (read : Json → Option α) {j : Json} (field : Option j.Part) :
    Option (Option α) :=
  Json.optional (fun v => read v.1) field

/-- Reads a declaration. -/
def Variable.decode (j : Json) : Option Variable := do
  match ← j.record? ["name", "doc", "ty", "value", "is_const", "direction"] with
  | [some name, doc, some type, value, some isConst, direction] =>
    return ⟨← Ident.decode name, ← decodeOption Json.str? doc, ← Ty.decode type,
      ← decodeOption Expr.decode value, ← isConst.1.bool?,
      ← decodeOption Direction.decode direction⟩
  | _ => none

/-- Reads a named enumeration. -/
def EnumDecl.decode (j : Json) : Option EnumDecl := do
  match ← j.record? ["name", "doc", "members"] with
  | [some name, doc, some members] =>
    return ⟨← Ident.decode name, ← decodeOption Json.str? doc,
      ← decodeList EnumMember.decode members⟩
  | _ => none

/-- Reads a named array type. -/
def ArrayDecl.decode (j : Json) : Option ArrayDecl := do
  match ← j.record? ["name", "doc", "element", "size"] with
  | [some name, doc, some element, some size] =>
    return ⟨← Ident.decode name, ← decodeOption Json.str? doc, ← Ty.decode element,
      ← Expr.decode size⟩
  | _ => none

/-- Reads a process. -/
def ProcessDecl.decode (j : Json) : Option ProcessDecl := do
  match ← j.record? ["label", "doc", "sensitivity", "body", "outputs"] with
  | [some label, doc, some sensitivity, some body, outputs] =>
    return ⟨← Ident.decode label, ← decodeOption Json.str? doc,
      ← decodeList Expr.decode sensitivity, ← decodeList Stmt.decode body,
      ← decodeOption (decodeList Ident.decode) outputs⟩
  | _ => none

/-- Reads a port binding. -/
def PortBinding.decode (j : Json) : Option PortBinding := do
  match ← j.record? ["port", "signal"] with
  | [some port, some signal] => return ⟨← Ident.decode port, ← Ident.decode signal⟩
  | _ => none

/-- Reads an instance. -/
def Instance.decode (j : Json) : Option Instance := do
  match ← j.record? ["name", "module_name", "doc", "port_map"] with
  | [some name, some moduleName, doc, some portMap] =>
    return ⟨← Ident.decode name, ← Ident.decode moduleName, ← decodeOption Json.str? doc,
      ← decodeList PortBinding.decode portMap⟩
  | _ => none

/-- Reads a function. -/
def FunctionDecl.decode (j : Json) : Option FunctionDecl := do
  match ← j.record? ["name", "params", "body"] with
  | [some name, some params, some body] =>
    return ⟨← Ident.decode name, ← decodeList Ident.decode params, ← decodeList Stmt.decode body⟩
  | _ => none

/-- Reads a generic parameter. -/
def Generic.decode (j : Json) : Option Generic := do
  match ← j.record? ["name", "ty", "default"] with
  | [some name, some type, default] =>
    return ⟨← Ident.decode name, ← Ty.decode type, ← decodeOption Expr.decode default⟩
  | _ => none

/-- Reads an item. -/
def Item.decode (j : Json) : Option Item := do
  match ← j.variant? with
  | ("EnumType", some d) => return .enumType (← EnumDecl.decode d)
  | ("ArrayType", some d) => return .arrayType (← ArrayDecl.decode d)
  | ("Variable", some d) => return .varDecl (← Variable.decode d)
  | ("Process", some p) => return .process (← ProcessDecl.decode p)
  | ("Component", some i) => return .subunit (← Instance.decode i)
  | ("Function", some f) => return .function (← FunctionDecl.decode f)
  | _ => none

/-- Reads a module. -/
def Module.decode (j : Json) : Option Module := do
  match ← j.record? ["name", "doc", "params", "ports", "items"] with
  | [some name, doc, some params, some ports, some items] =>
    return ⟨← Ident.decode name, ← decodeOption Json.str? doc, ← decodeList Generic.decode params,
      ← decodeList Variable.decode ports, ← decodeList Item.decode items⟩
  | _ => none

end HdlSim
