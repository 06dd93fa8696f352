import HdlSim.Design.Stmt

/-!
# Modules

Declarations, processes, instances and the module that holds them.
-/

namespace HdlSim

/-- The side from which a port is driven. -/
inductive Direction where
  | input | output | inOut
deriving DecidableEq

/-- A port, an internal signal, a constant or, when its type is the type of types, a type. -/
structure Variable where
  name : Ident
  doc : Option String
  type : Ty
  value : Option Expr
  isConst : Bool
  direction : Option Direction
deriving DecidableEq

namespace Variable

/-- An internal signal without an initial value. -/
def signal (name : Ident) (type : Ty) : Variable := ⟨name, none, type, none, false, none⟩

/-- A port without an initial value. -/
def port (name : Ident) (direction : Direction) (type : Ty) : Variable :=
  { signal name type with direction := some direction }

/-- A constant. -/
def constant (name : Ident) (type : Ty) (value : Expr) : Variable :=
  { signal name type with value := some value, isConst := true }

/-- The declaration with this initial value. -/
def withValue (v : Variable) (value : Expr) : Variable := { v with value := some value }

/-- The declaration with this documentation. -/
def withDoc (v : Variable) (doc : String) : Variable := { v with doc := some doc }

/-- Ports are the declarations that have a direction. -/
def isPort (v : Variable) : Bool := v.direction.isSome

end Variable

/-- A named enumeration. -/
structure EnumDecl where
  name : Ident
  doc : Option String
  members : List EnumMember
deriving DecidableEq

/-- A named array type. -/
structure ArrayDecl where
  name : Ident
  doc : Option String
  element : Ty
  size : Expr
deriving DecidableEq

/-- A process: when it wakes, what it runs, and which signals it may drive. -/
structure ProcessDecl where
  label : Ident
  doc : Option String
  sensitivity : List Expr
  body : List Stmt
  outputs : Option (List Ident)
deriving DecidableEq

namespace ProcessDecl

/-- A process whose output set is not known yet. -/
def ofBody (label : Ident) (sensitivity : List Expr) (body : List Stmt) : ProcessDecl :=
  ⟨label, none, sensitivity, body, none⟩

/-- The process with this output set. -/
def withOutputs (p : ProcessDecl) (outputs : List Ident) : ProcessDecl :=
  { p with outputs := some outputs }

/-- The process with this documentation. -/
def withDoc (p : ProcessDecl) (doc : String) : ProcessDecl := { p with doc := some doc }

end ProcessDecl

/-- A port of a sub-module tied to a signal of the module around it. -/
structure PortBinding where
  port : Ident
  signal : Ident
deriving DecidableEq

/-- A sub-module in use. -/
structure Instance where
  name : Ident
  moduleName : Ident
  doc : Option String
  portMap : List PortBinding
deriving DecidableEq

/-- An instance whose ports are tied to the given signals. -/
def Instance.ofBindings (name moduleName : Ident) (bindings : List (Ident × Ident)) : Instance :=
  ⟨name, moduleName, none, bindings.map fun (port, signal) => ⟨port, signal⟩⟩

/-- A function.  Models have no place for one. -/
structure FunctionDecl where
  name : Ident
  params : List Ident
  body : List Stmt
deriving DecidableEq

/-- A generic parameter.  Models are made of modules in which none is left. -/
structure Generic where
  name : Ident
  type : Ty
  default : Option Expr
deriving DecidableEq

/-- An item of a module's body. -/
inductive Item where
  | enumType (decl : EnumDecl)
  | arrayType (decl : ArrayDecl)
  | varDecl (decl : Variable)
  | process (decl : ProcessDecl)
  | subunit (inst : Instance)
  | function (decl : FunctionDecl)
deriving DecidableEq

/-- The process that an item is. -/
def Item.process? : Item → Option ProcessDecl
  | .process p => some p
  | _ => none

/-- The instance that an item is. -/
def Item.subunit? : Item → Option Instance
  | .subunit i => some i
  | _ => none

/-- The function that an item is. -/
def Item.function? : Item → Option FunctionDecl
  | .function f => some f
  | _ => none

/-- A module: the unit of which one model is made. -/
structure Module where
  name : Ident
  doc : Option String
  params : List Generic
  ports : List Variable
  items : List Item
deriving DecidableEq

namespace Module

/-- The module with nothing in it. -/
def empty (name : Ident) : Module := ⟨name, none, [], [], []⟩

/-- The processes of the body, in source order. -/
def processes (m : Module) : List ProcessDecl := m.items.filterMap Item.process?

/-- The instances of the body, in source order. -/
def instances (m : Module) : List Instance := m.items.filterMap Item.subunit?

end Module

end HdlSim
