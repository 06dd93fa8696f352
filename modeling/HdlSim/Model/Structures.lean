import HdlSim.Model.Basic
import HdlSim.Settings

/-!
# The structures of a model

The imports of sub-modules, the structure of the model, with its constants and sub-units, and the
structure of its signal proxies.
-/

namespace HdlSim.Model

/-- The host identifiers of the sub-modules in use, each once. -/
def importNames (m : Model) : Except Failure (List HostName) := do
  return (← m.context.hosts (m.body.instances.map Instance.moduleName)).eraseDups

/-- Imports the models of sub-modules, when each has a file of its own. -/
def imports (m : Model) (settings : Settings) : Script Unit :=
  match settings.modulePath with
  | none => pure ()
  | some path => do
    let names ← m.importNames
    Script.lines (names.map (Line.useModule path))
    if names.isEmpty then pure () else Script.blank

/-- The structure of the model and that of its proxies. -/
def structures (m : Model) : Script Unit := do
  let c := m.context
  Script.doc .doc m.doc
  Script.enter (.structDecl c.unit)
  Script.line (.fieldDecl (.plain "model") (.plain "SimModel"))
  Script.line (.fieldDecl (.plain "io") c.io)
  Script.forEach m.constants fun d => do
    Script.line (.fieldDecl (← c.host d.name) (.plain "HdlValue"))
  Script.forEach m.body.instances fun i => do
    let name ← c.host i.name
    let type ← c.host i.moduleName
    Script.line (.fieldDecl name type)
  Script.leave
  Script.blank
  Script.enter (.structDecl c.io)
  Script.forEach m.signals fun d => do
    Script.line (.fieldDecl (← c.host d.name) (.plain "SimProxy"))
  Script.leave
  Script.blank

end HdlSim.Model
