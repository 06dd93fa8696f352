import HdlSim.Names

/-!
# Expressions and types

Expressions stand on the right of assignments, in conditions, in sensitivity lists and as sizes of
types.  The two kinds of tree refer to each other: a cast names a type, an array type has a size.

Both have decidable equality (`Expr.beq_iff`, `Ty.beq_iff`), by which a repeated choice of a case
statement is found.
-/

namespace HdlSim

/-- Operators on one operand. -/
inductive UnaryOp where
  | not | neg | logicNot | redAnd | redOr | redXor
deriving DecidableEq

/-- Operators on two operands. -/
inductive BinaryOp where
  | add | sub | mul | div | mod | pow
  | and | or | xor | shl | shr
  | eq | ne | lt | le | gt | ge
  | logicAnd | logicOr
deriving DecidableEq

/-- The two transitions of a clock. -/
inductive ClockEdge where
  | rising | falling
deriving DecidableEq

/-- Constants written in the source. -/
inductive Literal where
  | int (value : Int64)
  /-- A bit string of the given width; its digits may be `0`, `1`, `x` and `z`. -/
  | bits (width : UInt32) (digits : String)
  | bool (value : Bool)
  | str (text : String)
deriving DecidableEq

mutual

/-- An expression. -/
inductive Expr where
  | name (name : Ident)
  | literal (value : Literal)
  | unary (op : UnaryOp) (operand : Expr)
  | binary (op : BinaryOp) (lhs rhs : Expr)
  | ternary (condition ifTrue ifFalse : Expr)
  | index (base index : Expr)
  | slice (base high low : Expr)
  /-- Concatenation, the most significant part first. -/
  | concat (parts : List Expr)
  | cast (operand : Expr) (type : Ty)
  | call (function : Ident) (args : List Expr)
  /-- The predicate that the signal has just made this transition. -/
  | edge (edge : ClockEdge) (signal : Expr)
  /-- A type in the place of a value. -/
  | type (type : Ty)

/-- A type. -/
inductive Ty where
  | bits (width : UInt32) (signed : Bool)
  | enum (members : List EnumMember)
  | array (element : Ty) (size : Expr)
  | named (name : Ident)
  /-- The type of a declaration that declares a type. -/
  | typeOfTypes

/-- A member of an enumeration; a bare one has no value of its own. -/
structure EnumMember where
  name : Ident
  value : Option Expr

end

mutual

/-- Structural equality of expressions. -/
def Expr.beq : Expr → Expr → Bool
  | .name n, .name m => n == m
  | .literal v, .literal w => v == w
  | .unary o a, .unary p b => o == p && Expr.beq a b
  | .binary o a b, .binary p c d => o == p && Expr.beq a c && Expr.beq b d
  | .ternary a b c, .ternary d e f => Expr.beq a d && Expr.beq b e && Expr.beq c f
  | .index a b, .index c d => Expr.beq a c && Expr.beq b d
  | .slice a b c, .slice d e f => Expr.beq a d && Expr.beq b e && Expr.beq c f
  | .concat as, .concat bs => Expr.beqList as bs
  | .cast a t, .cast b u => Expr.beq a b && Ty.beq t u
  | .call f as, .call g bs => f == g && Expr.beqList as bs
  | .edge k a, .edge l b => k == l && Expr.beq a b
  | .type t, .type u => Ty.beq t u
  | _, _ => false

/-- Structural equality of types. -/
def Ty.beq : Ty → Ty → Bool
  | .bits w s, .bits v r => w == v && s == r
  | .enum ms, .enum ns => EnumMember.beqList ms ns
  | .array t a, .array u b => Ty.beq t u && Expr.beq a b
  | .named n, .named m => n == m
  | .typeOfTypes, .typeOfTypes => true
  | _, _ => false

/-- Structural equality of enumeration members. -/
def EnumMember.beq : EnumMember → EnumMember → Bool
  | ⟨n, v⟩, ⟨m, w⟩ => n == m && Expr.beqOption v w

/-- Equality of lists of expressions, member by member. -/
def Expr.beqList : List Expr → List Expr → Bool
  | [], [] => true
  | a :: as, b :: bs => Expr.beq a b && Expr.beqList as bs
  | _, _ => false

/-- Equality of lists of enumeration members, member by member. -/
def EnumMember.beqList : List EnumMember → List EnumMember → Bool
  | [], [] => true
  | a :: as, b :: bs => EnumMember.beq a b && EnumMember.beqList as bs
  | _, _ => false

/-- Equality of expressions that may be absent. -/
def Expr.beqOption : Option Expr → Option Expr → Bool
  | none, none => true
  | some a, some b => Expr.beq a b
  | _, _ => false

end

mutual

/-- The Boolean test decides equality of expressions. -/
theorem Expr.beq_iff : ∀ a b : Expr, Expr.beq a b = true ↔ a = b
  | .name _, b => by cases b <;> simp [Expr.beq]
  | .literal _, b => by cases b <;> simp [Expr.beq]
  | .unary _ a, b => by cases b <;> simp [Expr.beq, Expr.beq_iff a]
  | .binary _ a b, c => by cases c <;> simp [Expr.beq, Expr.beq_iff a, Expr.beq_iff b, and_assoc]
  | .ternary a b c, d => by
      cases d <;> simp [Expr.beq, Expr.beq_iff a, Expr.beq_iff b, Expr.beq_iff c, and_assoc]
  | .index a b, c => by cases c <;> simp [Expr.beq, Expr.beq_iff a, Expr.beq_iff b]
  | .slice a b c, d => by
      cases d <;> simp [Expr.beq, Expr.beq_iff a, Expr.beq_iff b, Expr.beq_iff c, and_assoc]
  | .concat as, b => by cases b <;> simp [Expr.beq, Expr.beqList_iff as]
  | .cast a t, b => by cases b <;> simp [Expr.beq, Expr.beq_iff a, Ty.beq_iff t]
  | .call _ as, b => by cases b <;> simp [Expr.beq, Expr.beqList_iff as]
  | .edge _ a, b => by cases b <;> simp [Expr.beq, Expr.beq_iff a]
  | .type t, b => by cases b <;> simp [Expr.beq, Ty.beq_iff t]

/-- The Boolean test decides equality of types. -/
theorem Ty.beq_iff : ∀ t u : Ty, Ty.beq t u = true ↔ t = u
  | .bits _ _, u => by cases u <;> simp [Ty.beq]
  | .enum ms, u => by cases u <;> simp [Ty.beq, EnumMember.beqList_iff ms]
  | .array t a, u => by cases u <;> simp [Ty.beq, Ty.beq_iff t, Expr.beq_iff a]
  | .named _, u => by cases u <;> simp [Ty.beq]
  | .typeOfTypes, u => by cases u <;> simp [Ty.beq]

/-- The Boolean test decides equality of enumeration members. -/
theorem EnumMember.beq_iff : ∀ a b : EnumMember, EnumMember.beq a b = true ↔ a = b
  | ⟨_, v⟩, ⟨_, w⟩ => by simp [EnumMember.beq, Expr.beqOption_iff v w]

/-- The Boolean test decides equality of lists of expressions. -/
theorem Expr.beqList_iff : ∀ as bs : List Expr, Expr.beqList as bs = true ↔ as = bs
  | [], bs => by cases bs <;> simp [Expr.beqList]
  | a :: as, bs => by cases bs <;> simp [Expr.beqList, Expr.beq_iff a, Expr.beqList_iff as]

/-- The Boolean test decides equality of lists of enumeration members. -/
theorem EnumMember.beqList_iff :
    ∀ as bs : List EnumMember, EnumMember.beqList as bs = true ↔ as = bs
  | [], bs => by cases bs <;> simp [EnumMember.beqList]
  | a :: as, bs => by
      cases bs <;> simp [EnumMember.beqList, EnumMember.beq_iff a, EnumMember.beqList_iff as]

/-- The Boolean test decides equality of expressions that may be absent. -/
theorem Expr.beqOption_iff : ∀ a b : Option Expr, Expr.beqOption a b = true ↔ a = b
  | none, b => by cases b <;> simp [Expr.beqOption]
  | some a, b => by cases b <;> simp [Expr.beqOption, Expr.beq_iff a]

end

instance : DecidableEq Expr := fun a b => decidable_of_iff _ (Expr.beq_iff a b)
instance : DecidableEq Ty := fun a b => decidable_of_iff _ (Ty.beq_iff a b)
instance : DecidableEq EnumMember := fun a b => decidable_of_iff _ (EnumMember.beq_iff a b)

namespace Expr

/-- The name that a bare name consists of. -/
def asName? : Expr → Option Ident
  | .name n => some n
  | _ => none

/-- An integer constant. -/
def int (value : Int64) : Expr := .literal (.int value)

/-- The predicate that the named signal has just risen. -/
def risingEdge (signal : Ident) : Expr := .edge .rising (.name signal)

/-- The predicate that the named signal has just fallen. -/
def fallingEdge (signal : Ident) : Expr := .edge .falling (.name signal)

end Expr

/-- A member without a value of its own. -/
def EnumMember.bare (name : Ident) : EnumMember := ⟨name, none⟩

/-- Whether a declaration of this type declares a type. -/
def Ty.isTypeOfTypes : Ty → Bool
  | .typeOfTypes => true
  | _ => false

end HdlSim
