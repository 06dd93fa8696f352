import HdlSim.Site
import HdlSim.Trigger

/-!
# Sensitivity lists

An entry of a sensitivity list is a signal's bare name, or a transition of one.
-/

namespace HdlSim

/-- The trigger that an entry of a sensitivity list stands for. -/
def Expr.trigger? : Expr → Option Trigger
  | .name n => some ⟨n, .anyChange⟩
  | .edge .rising (.name n) => some ⟨n, .rising⟩
  | .edge .falling (.name n) => some ⟨n, .falling⟩
  | _ => none

namespace Site

/-- The triggers of a sensitivity list. -/
def triggers (s : Site) (sensitivity : List Expr) : Except Failure (List Trigger) :=
  sensitivity.mapM fun e =>
    match e.trigger? with
    | some t => pure t
    | none => throw (s.defect .badSensitivity)

/-- A trigger in the generated code. -/
def hostTrigger (s : Site) (t : Trigger) : Except Failure HostTrigger := do
  return ⟨t.edge, ← s.proxyOf t.signal⟩

/-- The triggers of a sensitivity list in the generated code. -/
def hostTriggers (s : Site) (ts : List Trigger) : Except Failure (List HostTrigger) :=
  ts.mapM s.hostTrigger

end Site

end HdlSim
