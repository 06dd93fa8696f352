import HdlSim.Host.Name
import HdlSim.Text.Join
import HdlSim.Text.Quoted

/-!
# Host expressions

The expressions of the host language that generated code is made of, and their text.  Operators are
always written in parentheses, so that every text is an operand on its own and nothing depends on
precedence.
-/

namespace HdlSim

/-- The operators that stand before their operand. -/
inductive HostPrefix where
  | not | neg
deriving DecidableEq

/-- The operators that stand between their operands. -/
inductive HostInfix where
  | add | sub | mul | div | rem | and | or | xor | shl | shr
deriving DecidableEq

/-- An expression of the host language. -/
inductive HostExpr where
  | name (name : HostName)
  /-- The model itself. -/
  | self
  | field (owner : HostExpr) (name : HostName)
  | int (value : Int)
  | bool (value : Bool)
  | str (text : String)
  /-- A reference to a list of strings. -/
  | strs (texts : List String)
  | call (function : HostName) (args : List HostExpr)
  /-- A call of a function of the model's own type. -/
  | selfCall (function : HostName)
  | method (receiver : HostExpr) (name : String) (args : List HostExpr)
  | prefixed (op : HostPrefix) (operand : HostExpr)
  | infixed (op : HostInfix) (lhs rhs : HostExpr)

/-- The sign of an operator. -/
def HostPrefix.sign : HostPrefix → String
  | .not => "!"
  | .neg => "-"

/-- The sign of an operator. -/
def HostInfix.sign : HostInfix → String
  | .add => "+"
  | .sub => "-"
  | .mul => "*"
  | .div => "/"
  | .rem => "%"
  | .and => "&"
  | .or => "|"
  | .xor => "^"
  | .shl => "<<"
  | .shr => ">>"

mutual

/-- The text of an expression. -/
def HostExpr.text : HostExpr → String
  | .name n => n.text
  | .self => "self"
  | .field e n => e.text ++ "." ++ n.text
  | .int v => Text.intText v
  | .bool b => Text.boolText b
  | .str s => Text.quote s
  | .strs ss => "&[" ++ Text.commaList (ss.map Text.quote) ++ "]"
  | .call f args => f.text ++ "(" ++ Text.commaList (HostExpr.texts args) ++ ")"
  | .selfCall f => "Self::" ++ f.text ++ "()"
  | .method e m args => e.text ++ "." ++ m ++ "(" ++ Text.commaList (HostExpr.texts args) ++ ")"
  | .prefixed op e => "(" ++ op.sign ++ e.text ++ ")"
  | .infixed op l r => "(" ++ l.text ++ " " ++ op.sign ++ " " ++ r.text ++ ")"

/-- The texts of some expressions, in order. -/
def HostExpr.texts : List HostExpr → List String
  | [] => []
  | e :: es => e.text :: HostExpr.texts es

end

namespace HostExpr

/-- A call of one of the functions that the simulation runtime provides. -/
def runtime (function : String) (args : List HostExpr) : HostExpr :=
  .call (HostName.plain function) args

/-- The bundle of signal proxies of the model. -/
def proxies : HostExpr := .field .self (HostName.plain "io")

end HostExpr

end HdlSim
