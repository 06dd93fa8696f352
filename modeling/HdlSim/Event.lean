import HdlSim.Failure

/-!
# Events

What lowering reports as it goes.  Events that belong to one module are logged inside that module's
span.
-/

namespace HdlSim

/-- How much an event matters. -/
inductive Level where
  | trace | debug | info | warn | error
deriving DecidableEq

/-- The value of a field of an event. -/
inductive FieldValue where
  | text (value : String)
  | count (value : Nat)
deriving DecidableEq

/-- Something that happened while a module was lowered. -/
inductive Event where
  | classified (module : String) (types vars processes instances : Nat)
  | functionItem (module function : String)
  | duplicateChoice (module object : String)
  | loweredProcess (process : String) (statements : Nat)
  | loweredModule (interfaces processes units : Nat)
  | loweredDesign (modules : Nat)
  | failed (failure : Failure)
deriving DecidableEq

namespace Event

/-- The level of an event. -/
def level : Event → Level
  | .classified .. => .trace
  | .functionItem .. => .error
  | .duplicateChoice .. => .warn
  | .loweredProcess .. => .debug
  | .loweredModule .. => .debug
  | .loweredDesign .. => .info
  | .failed .. => .error

/-- The event in words. -/
def message : Event → String
  | .classified .. => "classified module body"
  | .functionItem .. => Cause.functionItem.detail
  | .duplicateChoice .. => "duplicate case choice; the first matching arm is taken"
  | .loweredProcess .. => "lowered process"
  | .loweredModule .. => "lowered module"
  | .loweredDesign .. => "lowered design"
  | .failed failure => failure.report.message

/-- The facts that go with an event. -/
def fields : Event → List (String × FieldValue)
  | .classified module types vars processes instances =>
    [("module", .text module), ("types", .count types), ("variables", .count vars),
      ("processes", .count processes), ("components", .count instances)]
  | .functionItem module function => [("module", .text module), ("function", .text function)]
  | .duplicateChoice module object => [("module", .text module), ("object", .text object)]
  | .loweredProcess process statements =>
    [("process", .text process), ("statements", .count statements)]
  | .loweredModule interfaces processes units =>
    [("interfaces", .count interfaces), ("processes", .count processes), ("units", .count units)]
  | .loweredDesign modules => [("modules", .count modules)]
  | .failed failure => [("kind", .text failure.report.kind.describe)]

end Event

/-- An event in the log, with the module whose span was open, if one was. -/
structure LogEntry where
  span : Option String
  event : Event
deriving DecidableEq

end HdlSim
