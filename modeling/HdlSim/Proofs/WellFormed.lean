import HdlSim.Site

/-!
# Well-formed modules

What a module has to be like for a model to be made of it.  Names have to be known, signals and
constants are out of reach where there is no model, types have to be definite, statements complete,
and no two names of one kind may have the same host identifier.  Nothing here refers to how models
are written.
-/

namespace HdlSim

/-- The table issued this name. -/
def NameTable.Resolves (names : NameTable) (n : Ident) : Prop :=
  ∃ text, names.resolve? n = some text

section

variable (names : NameTable) (scope : Scope) (place : Place)

/-- A signal that can be reached from the place. -/
structure IsSignal (n : Ident) : Prop where
  kind : scope.get? n = some .proxy
  resolves : names.Resolves n
  inModel : place ≠ .static

/-- A name that has a value at the place.  Signals and constants have one only inside the model,
and a member of an enumeration has one only if the name of its type is known. -/
structure HasValue (n : Ident) : Prop where
  resolves : names.Resolves n
  inModel : scope.get? n = some .proxy ∨ scope.get? n = some .constant → place ≠ .static
  typed : ∀ type, scope.get? n = some (.enumMember type) → names.Resolves type

/-- A literal that means something: bit strings have digits of the four states only. -/
def Literal.WellFormed : Literal → Prop
  | .bits _ digits => ∀ c ∈ digits.toList, c ∈ "01xXzZ".toList
  | _ => True

mutual

/-- A well-formed expression. -/
inductive Expr.WellFormed : Expr → Prop
  | name {n : Ident} (hn : HasValue names scope place n) : Expr.WellFormed (.name n)
  | literal {v : Literal} (hv : v.WellFormed) : Expr.WellFormed (.literal v)
  | unary (op : UnaryOp) {a : Expr} (ha : Expr.WellFormed a) : Expr.WellFormed (.unary op a)
  | binary (op : BinaryOp) {a b : Expr} (ha : Expr.WellFormed a) (hb : Expr.WellFormed b) :
      Expr.WellFormed (.binary op a b)
  | ternary {c a b : Expr} (hc : Expr.WellFormed c) (ha : Expr.WellFormed a)
      (hb : Expr.WellFormed b) : Expr.WellFormed (.ternary c a b)
  | index {a i : Expr} (ha : Expr.WellFormed a) (hi : Expr.WellFormed i) :
      Expr.WellFormed (.index a i)
  | slice {a h l : Expr} (ha : Expr.WellFormed a) (hh : Expr.WellFormed h)
      (hl : Expr.WellFormed l) : Expr.WellFormed (.slice a h l)
  | concat {es : List Expr} (hne : es ≠ []) (hes : ∀ e ∈ es, Expr.WellFormed e) :
      Expr.WellFormed (.concat es)
  | cast {a : Expr} {type : Ty} (ha : Expr.WellFormed a) (htype : Ty.WellFormed type) :
      Expr.WellFormed (.cast a type)
  | call {f : Ident} {args : List Expr} (hf : names.Resolves f)
      (hargs : ∀ a ∈ args, Expr.WellFormed a) : Expr.WellFormed (.call f args)
  | edge (edge : ClockEdge) {n : Ident} (hn : IsSignal names scope place n) :
      Expr.WellFormed (.edge edge (.name n))
  | type {type : Ty} (htype : Ty.WellFormed type) : Expr.WellFormed (.type type)

/-- A well-formed type: it has a name, or it is spelled out.  An enumeration needs a name, and the
type of types is not the type of a value. -/
inductive Ty.WellFormed : Ty → Prop
  | bits (width : UInt32) (signed : Bool) : Ty.WellFormed (.bits width signed)
  | array {element : Ty} {size : Expr} (helement : Ty.WellFormed element)
      (hsize : Expr.WellFormed size) : Ty.WellFormed (.array element size)
  | named {n : Ident} (hn : names.Resolves n) : Ty.WellFormed (.named n)

end

/-- What can be assigned to: a signal, or one index or slice of it. -/
inductive Expr.IsTarget : Expr → Prop
  | name {n : Ident} (hn : IsSignal names scope place n) : Expr.IsTarget (.name n)
  | index {n : Ident} {i : Expr} (hn : IsSignal names scope place n)
      (hi : i.WellFormed names scope place) : Expr.IsTarget (.index (.name n) i)
  | slice {n : Ident} {h l : Expr} (hn : IsSignal names scope place n)
      (hh : h.WellFormed names scope place) (hl : l.WellFormed names scope place) :
      Expr.IsTarget (.slice (.name n) h l)

/-- A well-formed statement: an if statement has a branch, and every arm of a case statement has a
choice. -/
inductive Stmt.WellFormed : Stmt → Prop
  | assign {target value : Expr} (htarget : target.IsTarget names scope place)
      (hvalue : value.WellFormed names scope place) : Stmt.WellFormed (.assign target value)
  | ifElse {branches : List IfBranch} {elseBody : Option (List Stmt)} (hne : branches ≠ [])
      (hconditions : ∀ b ∈ branches, b.condition.WellFormed names scope place)
      (hbodies : ∀ b ∈ branches, ∀ st ∈ b.body, Stmt.WellFormed st)
      (helse : ∀ body ∈ elseBody, ∀ st ∈ body, Stmt.WellFormed st) :
      Stmt.WellFormed (.ifElse branches elseBody)
  | case {selector : Expr} {arms : List CaseArm} {default : Option (List Stmt)}
      (hselector : selector.WellFormed names scope place)
      (hne : ∀ arm ∈ arms, arm.choices ≠ [])
      (hchoices : ∀ arm ∈ arms, ∀ c ∈ arm.choices, c.WellFormed names scope place)
      (hbodies : ∀ arm ∈ arms, ∀ st ∈ arm.body, Stmt.WellFormed st)
      (hdefault : ∀ body ∈ default, ∀ st ∈ body, Stmt.WellFormed st) :
      Stmt.WellFormed (.case selector arms default)
  | block {body : List Stmt} (hbody : ∀ st ∈ body, Stmt.WellFormed st) :
      Stmt.WellFormed (.block body)
  | null : Stmt.WellFormed .null

end

section

variable (names : NameTable) (scope : Scope)

/-- A well-formed member of an enumeration: it has no value of its own. -/
structure EnumMember.WellFormed (m : EnumMember) : Prop where
  bare : m.value = none
  resolves : names.Resolves m.name

/-- A well-formed declaration of a type.  A synonym gives an enumeration or another type; types are
made where there is no model. -/
inductive TypeItem.WellFormed : TypeItem → Prop
  | enum {d : EnumDecl} (hname : names.Resolves d.name)
      (hmembers : ∀ m ∈ d.members, m.WellFormed names) : TypeItem.WellFormed (.enum d)
  | array {d : ArrayDecl} (hname : names.Resolves d.name)
      (helement : d.element.WellFormed names scope .static)
      (hsize : d.size.WellFormed names scope .static) : TypeItem.WellFormed (.array d)
  | enumSynonym {d : Variable} {members : List EnumMember} (hname : names.Resolves d.name)
      (hvalue : d.value = some (.type (.enum members)))
      (hmembers : ∀ m ∈ members, m.WellFormed names) : TypeItem.WellFormed (.synonym d)
  | synonym {d : Variable} {type : Ty} (hname : names.Resolves d.name)
      (hvalue : d.value = some (.type type)) (htype : type.WellFormed names scope .static) :
      TypeItem.WellFormed (.synonym d)

/-- A well-formed port or variable.  Of a constant the value counts and not the type; of a signal
the type, and the initial value if there is one. -/
structure Variable.WellFormed (d : Variable) : Prop where
  resolves : names.Resolves d.name
  constant : d.isConst = true → ∃ e, d.value = some e ∧ e.WellFormed names scope .constructor
  signal : d.isConst = false → d.type.WellFormed names scope .constructor ∧
    ∀ e ∈ d.value, e.WellFormed names scope .constructor

/-- A well-formed instance: its ports are tied to signals. -/
structure Instance.WellFormed (i : Instance) : Prop where
  resolves : names.Resolves i.name
  module : names.Resolves i.moduleName
  signals : ∀ b ∈ i.portMap, IsSignal names scope .process b.signal
  ports : ∀ b ∈ i.portMap, names.Resolves b.port

/-- An entry of a sensitivity list: a signal, or a transition of one. -/
inductive Expr.IsWatched : Expr → Prop
  | name {n : Ident} (hn : IsSignal names scope .process n) : Expr.IsWatched (.name n)
  | edge (edge : ClockEdge) {n : Ident} (hn : IsSignal names scope .process n) :
      Expr.IsWatched (.edge edge (.name n))

/-- A well-formed process: its outputs are known, and they are signals. -/
structure ProcessDecl.WellFormed (p : ProcessDecl) : Prop where
  resolves : names.Resolves p.label
  sensitivity : ∀ e ∈ p.sensitivity, e.IsWatched names scope
  outputs : ∃ outputs, p.outputs = some outputs ∧ ∀ n ∈ outputs, IsSignal names scope .process n
  body : ∀ st ∈ p.body, st.WellFormed names scope .process

/-- A well-formed item.  A declaration whose type is the type of types declares a type; a function
has no place in a module. -/
inductive Item.WellFormed : Item → Prop
  | enumType {d : EnumDecl} (h : TypeItem.WellFormed names scope (.enum d)) :
      Item.WellFormed (.enumType d)
  | arrayType {d : ArrayDecl} (h : TypeItem.WellFormed names scope (.array d)) :
      Item.WellFormed (.arrayType d)
  | synonym {d : Variable} (htype : d.type = .typeOfTypes)
      (h : TypeItem.WellFormed names scope (.synonym d)) : Item.WellFormed (.varDecl d)
  | varDecl {d : Variable} (htype : d.type ≠ .typeOfTypes) (h : d.WellFormed names scope) :
      Item.WellFormed (.varDecl d)
  | process {p : ProcessDecl} (h : p.WellFormed names scope) : Item.WellFormed (.process p)
  | subunit {i : Instance} (h : i.WellFormed names scope) : Item.WellFormed (.subunit i)

/-- Two names do not collide: they have different host identifiers, or they are the same name. -/
def Apart (n m : Ident) : Prop :=
  ∀ text text', names.resolve? n = some text → names.resolve? m = some text' →
    HostName.escape text = HostName.escape text' → n = m

/-- No two of the names collide. -/
def NoCollision (ns : List Ident) : Prop := ∀ n ∈ ns, ∀ m ∈ ns, Apart names n m

end

/-- The scope of a module: its types with their members, then its ports, then its variables. -/
def Module.scope (m : Module) : Scope := Scope.ofBody m.ports (Body.ofItems m.items)

/-- **Well-formed modules.** -/
structure Module.WellFormed (names : NameTable) (m : Module) : Prop where
  resolves : names.Resolves m.name
  noGenerics : m.params = []
  ports : ∀ p ∈ m.ports, p.WellFormed names m.scope
  items : ∀ i ∈ m.items, i.WellFormed names m.scope
  /-- Ports, variables and instances share the fields of the model. -/
  fields : NoCollision names (Scope.fieldNames m.ports (Body.ofItems m.items))
  /-- Types and processes share its functions. -/
  functions : NoCollision names (Scope.functionNames (Body.ofItems m.items))

end HdlSim
