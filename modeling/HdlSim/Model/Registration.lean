import HdlSim.Model.Basic
import HdlSim.Model.Summary
import HdlSim.Site.Sensitivity

/-!
# What the simulator calls

The function that ties the ports of sub-units, registers signals, processes and sub-units and says
what each process watches and may drive, and the function that runs a process by its number.
-/

namespace HdlSim.Model

/-- Ties the ports of an instance to signals. -/
def connections (m : Model) (i : Instance) : Script Unit := do
  let name ← m.context.name i.name
  let s := m.site .process ("instance `" ++ name ++ "`")
  let unit ← m.context.host i.name
  Script.forEach i.portMap fun b => do
    let signal ← s.proxyOf b.signal
    let port ← m.context.host b.port
    Script.line (.connect signal unit port)

/-- Registers what a process watches and what it may drive. -/
def registration (m : Model) (p : ProcessDecl) : Script ProcessSummary := do
  let label ← m.context.name p.label
  let s := m.site .process ("process `" ++ label ++ "`")
  let triggers ← s.triggers p.sensitivity
  let hostTriggers ← s.hostTriggers triggers
  match p.outputs with
  | none => Script.fail (s.defect .missingOutputs)
  | some outputs =>
    let proxies ← s.proxiesOf outputs
    Script.line (.setSensitivity label hostTriggers)
    Script.line (.setOutputs label (proxies.map fun proxy => .method proxy "clone" []))
    let watched ← m.context.texts (triggers.map Trigger.signal)
    let driven ← m.context.texts outputs
    return ⟨label, List.zipWith TriggerSummary.mk watched (triggers.map Trigger.edge), driven⟩

/-- The function that registers the parts of the model. -/
def initBody (m : Model) : Script Summary := do
  let c := m.context
  Script.enter .initBodyFn
  Script.forEach m.body.instances m.connections
  let constants ← c.texts (m.constants.map Variable.name)
  let interfaces ← c.texts (m.signals.map Variable.name)
  let fields ← c.hosts (m.signals.map Variable.name)
  Script.line (.setInterfaces (fields.map fun n => .method (.field .proxies n) "clone" []))
  Script.line (.setProcesses (← c.texts (m.body.processes.map ProcessDecl.label)))
  let units ← c.texts (m.body.instances.map Instance.name)
  let unitFields ← c.hosts (m.body.instances.map Instance.name)
  Script.line (.setUnits (unitFields.map fun n =>
    .method (.field (.field .self n) (.plain "model")) "clone" []))
  let processes ← m.body.processes.mapM m.registration
  Script.forEach m.body.instances fun i => do Script.line (.initUnit (← c.host i.name))
  Script.leave
  Script.blank
  return ⟨c.module, interfaces, constants, processes, units⟩

/-- The arm that runs the process with this number. -/
def dispatch (m : Model) (index : Nat) : List ProcessDecl → Script Unit
  | [] => pure ()
  | p :: rest => do
    Script.line (.dispatch index (← m.context.host p.label))
    m.dispatch (index + 1) rest

/-- What the simulator calls. -/
def simUnit (m : Model) : Script Summary := do
  Script.enter (.simUnitImpl m.context.unit)
  Script.enter .modelFn
  Script.line .modelRef
  Script.leave
  Script.blank
  let summary ← m.initBody
  Script.enter .runProcessFn
  Script.enter .matchIndex
  m.dispatch 0 m.body.processes
  Script.line (.noProcess m.context.unit)
  Script.leave
  Script.leave
  Script.leave
  return summary

end HdlSim.Model
