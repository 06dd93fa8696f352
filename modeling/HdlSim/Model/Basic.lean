import HdlSim.Design.Module
import HdlSim.Site

/-!
# Modules ready to be written

`Model.ofModule` makes a model of a module, or fails before anything is written.
-/

namespace HdlSim

/-- A module that is ready to be written as a model. -/
structure Model where
  context : Context
  doc : Option String
  ports : List Variable
  body : Body
  scope : Scope

namespace Model

/-- Refuses a module in which generic parameters are left. -/
def refuseGenerics (c : Context) : List Generic → Except Failure Unit
  | [] => return ()
  | generic :: _ => do
    let name ← c.name generic.name
    throw (c.defect ("generic `" ++ name ++ "`") .unresolvedGeneric)

/-- The model of a module.  Generic parameters, functions and colliding names are refused. -/
def ofModule (c : Context) (m : Module) : Script Model := do
  refuseGenerics c m.params
  let body ← Body.sort c m.items
  let scope ← Scope.build c m.ports body
  return ⟨c, m.doc, m.ports, body, scope⟩

/-- The site of an object in the model. -/
def site (m : Model) (place : Place) (object : String) : Site := ⟨m.context, m.scope, place, object⟩

/-- All declarations of data: ports, then variables. -/
def decls (m : Model) : List Variable := m.ports ++ m.body.vars

/-- The declarations of constants. -/
def constants (m : Model) : List Variable := m.decls.filter Variable.isConst

/-- The declarations of signals. -/
def signals (m : Model) : List Variable := m.decls.filter fun d => !d.isConst

end Model

end HdlSim
