import HdlSim.Context
import HdlSim.Design.Module
import HdlSim.Script

/-!
# Module bodies, sorted

The items of a module in the groups in which a model needs them: types, variables, processes and
instances, each in source order.  A declaration whose type is the type of types declares a type.
Functions belong to no group, and a module that has one is refused.
-/

namespace HdlSim

/-- A declaration of a type. -/
inductive TypeItem where
  | enum (decl : EnumDecl)
  | array (decl : ArrayDecl)
  /-- A declaration that gives a type as its value. -/
  | synonym (decl : Variable)
deriving DecidableEq

namespace TypeItem

/-- The name that is declared. -/
def name : TypeItem → Ident
  | .enum d => d.name
  | .array d => d.name
  | .synonym d => d.name

/-- The documentation of the declaration. -/
def doc : TypeItem → Option String
  | .enum d => d.doc
  | .array d => d.doc
  | .synonym d => d.doc

/-- The members that an enumeration brings into scope, however it is declared. -/
def members : TypeItem → List EnumMember
  | .enum d => d.members
  | .synonym { value := some (.type (.enum members)), .. } => members
  | _ => []

end TypeItem

/-- The type that an item declares. -/
def Item.typeItem? : Item → Option TypeItem
  | .enumType d => some (.enum d)
  | .arrayType d => some (.array d)
  | .varDecl d => if d.type.isTypeOfTypes then some (.synonym d) else none
  | _ => none

/-- The port, signal or constant that an item declares. -/
def Item.varDecl? : Item → Option Variable
  | .varDecl d => if d.type.isTypeOfTypes then none else some d
  | _ => none

/-- The items of a module by kind. -/
structure Body where
  types : List TypeItem
  vars : List Variable
  processes : List ProcessDecl
  instances : List Instance
deriving DecidableEq

namespace Body

/-- The items sorted; functions are left out. -/
def ofItems (items : List Item) : Body where
  types := items.filterMap Item.typeItem?
  vars := items.filterMap Item.varDecl?
  processes := items.filterMap Item.process?
  instances := items.filterMap Item.subunit?

/-- Sorts the items of the module at work and reports the sizes of the groups; a function is
reported and refused. -/
def sort (c : Context) (items : List Item) : Script Body :=
  match items.findSome? Item.function? with
  | some function => do
    let name ← c.name function.name
    Script.log (.functionItem c.module name)
    Script.fail (c.defect ("function `" ++ name ++ "`") .functionItem)
  | none => do
    let body := ofItems items
    Script.log (.classified c.module body.types.length body.vars.length
      body.processes.length body.instances.length)
    return body

end Body

end HdlSim
