import HdlSim.Scope
import HdlSim.Host.Expr

/-!
# Sites

Where an expression stands decides how the names in it are written.  In the constructor of a model
its signals and constants are local variables; in a process they are fields of the model; in the
functions for types there is no model to refer to.
-/

namespace HdlSim

/-- The part of the generated code in which an expression stands. -/
inductive Place where
  | constructor
  | process
  | static
deriving DecidableEq

/-- A place in the code of the module at work, with the scope and the object that is blamed for
failures. -/
structure Site where
  context : Context
  scope : Scope
  place : Place
  object : String

namespace Site

/-- A failure at this site. -/
def defect (s : Site) (cause : Cause) : Failure := s.context.defect s.object cause

/-- The failure to reach a signal or constant where there is no model. -/
def outside {α : Type} (s : Site) (n : Ident) : Except Failure α := do
  throw (s.defect (.outsideInstance (← s.context.name n)))

/-- The proxy of a signal. -/
def proxyPath (s : Site) (n : Ident) : Except Failure HostExpr := do
  let host ← s.context.host n
  match s.place with
  | .constructor => return .name host
  | .process => return .field .proxies host
  | .static => s.outside n

/-- The proxy of a name that has to be a signal. -/
def proxyOf (s : Site) (n : Ident) : Except Failure HostExpr :=
  match s.scope.get? n with
  | some .proxy => s.proxyPath n
  | _ => do throw (s.defect (.nameNotASignal (← s.context.name n)))

/-- The proxy of an expression that has to be a signal's bare name. -/
def proxy (s : Site) (e : Expr) : Except Failure HostExpr :=
  match e.asName? with
  | some n => s.proxyOf n
  | none => throw (s.defect .notASignal)

/-- The proxies of names that have to be signals, in order. -/
def proxiesOf (s : Site) (ns : List Ident) : Except Failure (List HostExpr) := ns.mapM s.proxyOf

/-- The value of a name. -/
def nameValue (s : Site) (n : Ident) : Except Failure HostExpr := do
  let host ← s.context.host n
  match s.scope.get? n with
  | some .proxy => return .method (← s.proxyPath n) "read" []
  | some .constant =>
    match s.place with
    | .constructor => return .method (.name host) "clone" []
    | .process => return .method (.field .self host) "clone" []
    | .static => s.outside n
  | some .type => return .selfCall host
  | some (.enumMember type) =>
    let typeHost ← s.context.host type
    let member ← s.context.name n
    return .method (.selfCall typeHost) "member" [.str member]
  | none => return .name host

/-- Whether a character may stand in a bit string. -/
def isBitDigit (c : Char) : Bool :=
  c == '0' || c == '1' || c == 'x' || c == 'X' || c == 'z' || c == 'Z'

/-- The value of a constant written in the source. -/
def literalValue (s : Site) : Literal → Except Failure HostExpr
  | .int v => return .runtime "int" [.int v.toInt]
  | .bits width digits =>
    match digits.toList.find? fun c => !isBitDigit c with
    | some bad => throw (s.defect (.badDigit bad))
    | none =>
      let lower := String.ofList (digits.toList.map Char.toLower)
      return .runtime "bits" [.int width.toNat, .str lower]
  | .bool b => return .runtime "boolean" [.bool b]
  | .str text => return .runtime "string" [.str text]

end Site

/-- An operator on one operand, applied. -/
def UnaryOp.apply : UnaryOp → HostExpr → HostExpr
  | .not, e => .prefixed .not e
  | .neg, e => .prefixed .neg e
  | .logicNot, e => .method e "logic_not" []
  | .redAnd, e => .method e "reduce_and" []
  | .redOr, e => .method e "reduce_or" []
  | .redXor, e => .method e "reduce_xor" []

/-- An operator on two operands, applied.  Comparisons and connectives are methods, because their
results have four states. -/
def BinaryOp.apply : BinaryOp → HostExpr → HostExpr → HostExpr
  | .add, l, r => .infixed .add l r
  | .sub, l, r => .infixed .sub l r
  | .mul, l, r => .infixed .mul l r
  | .div, l, r => .infixed .div l r
  | .mod, l, r => .infixed .rem l r
  | .and, l, r => .infixed .and l r
  | .or, l, r => .infixed .or l r
  | .xor, l, r => .infixed .xor l r
  | .shl, l, r => .infixed .shl l r
  | .shr, l, r => .infixed .shr l r
  | .pow, l, r => .method l "pow" [r]
  | .eq, l, r => .method l "hdl_eq" [r]
  | .ne, l, r => .method l "hdl_ne" [r]
  | .lt, l, r => .method l "hdl_lt" [r]
  | .le, l, r => .method l "hdl_le" [r]
  | .gt, l, r => .method l "hdl_gt" [r]
  | .ge, l, r => .method l "hdl_ge" [r]
  | .logicAnd, l, r => .method l "logic_and" [r]
  | .logicOr, l, r => .method l "logic_or" [r]

/-- The predicate that a signal has just made a transition. -/
def ClockEdge.apply : ClockEdge → HostExpr → HostExpr
  | .rising, proxy => .method proxy "on_rising_edge" []
  | .falling, proxy => .method proxy "on_falling_edge" []

namespace Site

mutual

/-- The value of an expression. -/
def value (s : Site) : Expr → Except Failure HostExpr
  | .name n => s.nameValue n
  | .literal v => s.literalValue v
  | .unary op a => do return op.apply (← s.value a)
  | .binary op a b => do
    let l ← s.value a
    let r ← s.value b
    return op.apply l r
  | .ternary c a b => do
    let condition ← s.value c
    let ifTrue ← s.value a
    let ifFalse ← s.value b
    return .runtime "ternary" [condition, ifTrue, ifFalse]
  | .index a i => do
    let base ← s.value a
    let index ← s.value i
    return .method base "index" [index]
  | .slice a h l => do
    let base ← s.value a
    let high ← s.value h
    let low ← s.value l
    return .method base "slice" [high, low]
  | .concat [] => throw (s.defect .emptyConcat)
  | .concat (first :: rest) => do s.concatValue (← s.value first) rest
  | .cast a t => do
    let operand ← s.value a
    let type ← s.typeValue t
    return .method operand "reinterpret_cast" [type]
  | .call f args => do
    let values ← s.values args
    return .call (← s.context.host f) values
  | .edge k a => do return k.apply (← s.proxy a)
  | .type t => s.typeValue t

/-- The values of some expressions, in order. -/
def values (s : Site) : List Expr → Except Failure (List HostExpr)
  | [] => return []
  | e :: es => do
    let v ← s.value e
    let vs ← s.values es
    return v :: vs

/-- The parts of a concatenation joined to what stands before them. -/
def concatValue (s : Site) (front : HostExpr) : List Expr → Except Failure HostExpr
  | [] => return front
  | e :: es => do s.concatValue (.method front "concat" [← s.value e]) es

/-- The value that stands for a type. -/
def typeValue (s : Site) : Ty → Except Failure HostExpr
  | .bits width signed => return .runtime "bits3t" [.int width.toNat, .bool signed]
  | .array t size => do
    let element ← s.typeValue t
    let count ← s.value size
    return .runtime "array3t" [element, count]
  | .named n => do
    let host ← s.context.host n
    match s.scope.get? n with
    | some .type => return .selfCall host
    | _ => return .call host []
  | .enum _ => throw (s.defect .anonymousEnum)
  | .typeOfTypes => throw (s.defect .typeOfTypes)

end

/-- An initial value, if there is one. -/
def initValue (s : Site) : Option Expr → Except Failure (Option HostExpr)
  | none => return none
  | some e => do return some (← s.value e)

/-- The names of bare members; one with a value of its own is refused. -/
def memberNames (s : Site) : List EnumMember → Except Failure (List String)
  | [] => return []
  | ⟨_, some _⟩ :: _ => throw (s.defect .enumValue)
  | ⟨n, none⟩ :: rest => do
    let name ← s.context.name n
    let names ← s.memberNames rest
    return name :: names

/-- The value that defines an enumeration. -/
def enumValue (s : Site) (name : String) (members : List EnumMember) : Except Failure HostExpr := do
  return .runtime "define_enum3t" [.str name, .strs (← s.memberNames members)]

/-- The value that defines a declared type. -/
def typeItemValue (s : Site) (t : TypeItem) : Except Failure HostExpr := do
  let name ← s.context.name t.name
  match t with
  | .enum d => s.enumValue name d.members
  | .array d => s.typeValue (.array d.element d.size)
  | .synonym d =>
    match d.value with
    | some (.type (.enum members)) => s.enumValue name members
    | some (.type .typeOfTypes) => throw (s.defect .aliasWithoutType)
    | some (.type t) => s.typeValue t
    | _ => throw (s.defect .aliasWithoutType)

end Site

end HdlSim
