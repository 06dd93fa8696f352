import HdlSim.Names
import HdlSim.Host.Expr

/-!
# Triggers

What wakes a process: a signal, and the transition of it that counts.
-/

namespace HdlSim

/-- The transitions that wake a process. -/
inductive TriggerEdge where
  | anyChange | rising | falling
deriving DecidableEq

/-- A watched signal of the design. -/
structure Trigger where
  signal : Ident
  edge : TriggerEdge
deriving DecidableEq

/-- A watched signal in the generated code. -/
structure HostTrigger where
  edge : TriggerEdge
  proxy : HostExpr

/-- The runtime's name for a transition. -/
def TriggerEdge.maker : TriggerEdge → String
  | .anyChange => "any"
  | .rising => "rising"
  | .falling => "falling"

/-- A watched signal as it is registered. -/
def HostTrigger.text (t : HostTrigger) : String :=
  "Trigger::" ++ t.edge.maker ++ "(&" ++ t.proxy.text ++ ")"

end HdlSim
