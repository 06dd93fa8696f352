import HdlSim.Trigger

/-!
# Summaries

What a model was registered with, in the words of the design.
-/

namespace HdlSim

/-- A watched signal by name. -/
structure TriggerSummary where
  signal : String
  edge : TriggerEdge
deriving DecidableEq

/-- A process by name, with what it watches and what it may drive. -/
structure ProcessSummary where
  label : String
  sensitivity : List TriggerSummary
  outputs : List String
deriving DecidableEq

/-- A model by name, with its parts in the order of registration. -/
structure Summary where
  name : String
  /-- The signals: ports, then internal ones. -/
  interfaces : List String
  constants : List String
  processes : List ProcessSummary
  /-- The instances of sub-modules. -/
  units : List String
deriving DecidableEq

end HdlSim
