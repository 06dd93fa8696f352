import HdlSim.Model.Basic
import HdlSim.Site.Block

/-!
# The processes of a model

One function for each process.
-/

namespace HdlSim.Model

/-- The function for a process. -/
def processFunction (m : Model) (p : ProcessDecl) : Script Unit := do
  let label ← m.context.name p.label
  Script.doc .doc p.doc
  Script.enter (.processFn (← m.context.host p.label))
  (m.site .process ("process `" ++ label ++ "`")).block p.body
  Script.leave
  Script.log (.loweredProcess label p.body.length)

/-- The functions for processes, with empty lines between them. -/
def processes (m : Model) : Script Unit :=
  match m.body.processes with
  | [] => pure ()
  | first :: rest => do
    Script.blank
    Script.enter (.implBlock m.context.unit)
    m.processFunction first
    Script.forEach rest fun p => do
      Script.blank
      m.processFunction p
    Script.leave

end HdlSim.Model
