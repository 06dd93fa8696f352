import HdlSim.Model.Basic

/-!
# The constructor of a model

The functions that define the declared types, and the constructor, which makes a local variable for
every port, variable and instance and puts them into the model.
-/

namespace HdlSim.Model

/-- The function for a declared type. -/
def typeFunction (m : Model) (t : TypeItem) : Script Unit := do
  let name ← m.context.name t.name
  let value ← (m.site .static ("type `" ++ name ++ "`")).typeItemValue t
  Script.doc .doc t.doc
  Script.enter (.typeFn (← m.context.host t.name))
  Script.line (.result value)
  Script.leave
  Script.blank

/-- The local variable of the constructor for a declaration of the given kind.  A constant is its
value; a signal gets a proxy of its type, with its initial value if it has one. -/
def declaration (m : Model) (kind : String) (d : Variable) : Script Unit := do
  let name ← m.context.name d.name
  let s := m.site .constructor (kind ++ " `" ++ name ++ "`")
  let host ← m.context.host d.name
  Script.doc .note d.doc
  if d.isConst then
    match d.value with
    | none => Script.fail (s.defect .constantWithoutValue)
    | some e => Script.line (.letConst host (← s.value e))
  else
    let type ← s.typeValue d.type
    let init ← s.initValue d.value
    Script.line (.letProxy host name type init)

/-- The local variable of the constructor for an instance. -/
def instanceLocal (m : Model) (i : Instance) : Script Unit := do
  Script.doc .note i.doc
  let host ← m.context.host i.name
  let type ← m.context.host i.moduleName
  let name ← m.context.name i.name
  Script.line (.letUnit host type name)

/-- A heading and a script for each member of a list, or nothing for the empty list. -/
def headed {α : Type} (heading : String) (xs : List α) (f : α → Script Unit) : Script Unit :=
  if xs.isEmpty then pure ()
  else do
    Script.line (.comment .note heading)
    Script.forEach xs f

/-- Gives a field the local variable of the same name. -/
def fieldInit (m : Model) (n : Ident) : Script Unit := do
  Script.line (.fieldInit (← m.context.host n))

/-- The bundle of proxies. -/
def ioValue (m : Model) : Script Unit :=
  if m.signals.isEmpty then Script.line (.emptyIoValue m.context.io)
  else do
    Script.enter (.ioValue m.context.io)
    Script.forEach m.signals fun d => m.fieldInit d.name
    Script.leaveWith .closeField

/-- The value that the constructor returns. -/
def selfValue (m : Model) : Script Unit := do
  Script.enter .selfValue
  Script.line (.fieldInit (.plain "model"))
  m.ioValue
  Script.forEach m.constants fun d => m.fieldInit d.name
  Script.forEach m.body.instances fun i => m.fieldInit i.name
  Script.leave

/-- The functions for types and the constructor. -/
def constructor (m : Model) : Script Unit := do
  Script.enter (.implBlock m.context.unit)
  Script.forEach m.body.types m.typeFunction
  Script.enter .newFn
  Script.line .letModel
  headed "ports" m.ports (m.declaration "port")
  headed "internal signals" m.body.vars fun d =>
    m.declaration (if d.isConst then "constant" else "signal") d
  headed "component instances" m.body.instances m.instanceLocal
  m.selfValue
  Script.leave
  Script.leave
  Script.blank

end HdlSim.Model
