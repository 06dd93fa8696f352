import HdlSim.Model.Constructor
import HdlSim.Model.Processes
import HdlSim.Model.Registration
import HdlSim.Model.Structures

/-!
# Models

The model of a module: a structure with its constants and sub-units, a structure with the proxies of
its signals, a constructor, what the simulator calls to register and run processes, and a function
for each process.
-/

namespace HdlSim.Model

/-- The text of the model. -/
def script (m : Model) (settings : Settings) : Script Summary := do
  m.imports settings
  m.structures
  m.constructor
  let summary ← m.simUnit
  m.processes
  return summary

end HdlSim.Model
