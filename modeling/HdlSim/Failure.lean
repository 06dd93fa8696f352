/-!
# Failures

Why a module has no model.  A failure names the module, the object in it that is at fault and the
cause; the wording is in `FailureKind.wording` and `Cause.detail` alone.
-/

namespace HdlSim

/-- The kinds of failure. -/
inductive FailureKind where
  /-- The module is malformed. -/
  | structural
  /-- The module uses something that models cannot express. -/
  | unsupported
  /-- An earlier stage left out what a model needs. -/
  | gap
  /-- The sink refused a write. -/
  | output
deriving DecidableEq

/-- What is wrong with the object at fault. -/
inductive Cause where
  | unresolvedIdent
  | emptyConcat
  | badDigit (digit : Char)
  | ifWithoutBranches
  | armWithoutChoices
  | aliasWithoutType
  | badSensitivity
  | functionItem
  | constantWithoutValue
  | notASignal
  | nameNotASignal (name : String)
  | outsideInstance (name : String)
  | badTarget
  | anonymousEnum
  | typeOfTypes
  | enumValue
  | nameCollision (first : String)
  | unresolvedGeneric
  | missingOutputs
deriving DecidableEq

/-- A failure: a cause in an object of a module, or a refused write. -/
inductive Failure where
  | defect (module object : String) (cause : Cause)
  | refusedWrite
deriving DecidableEq

namespace Cause

/-- The kind of failure that a cause leads to. -/
def kind : Cause → FailureKind
  | .unresolvedIdent | .emptyConcat | .badDigit _ | .ifWithoutBranches | .armWithoutChoices
  | .aliasWithoutType | .badSensitivity | .functionItem | .constantWithoutValue => .structural
  | .notASignal | .nameNotASignal _ | .outsideInstance _ | .badTarget | .anonymousEnum
  | .typeOfTypes | .enumValue | .nameCollision _ => .unsupported
  | .unresolvedGeneric | .missingOutputs => .gap

/-- The cause in words. -/
def detail : Cause → String
  | .unresolvedIdent => "unresolved identifier"
  | .emptyConcat => "empty concatenation"
  | .badDigit digit => "invalid bit-string digit `" ++ String.singleton digit ++ "`"
  | .ifWithoutBranches => "if statement without branches"
  | .armWithoutChoices => "case arm without choices"
  | .aliasWithoutType => "type alias without a type value"
  | .badSensitivity => "unrecognized sensitivity operator"
  | .functionItem => "object kind has no bucket"
  | .constantWithoutValue => "constant without a value"
  | .notASignal => "expression is not a signal"
  | .nameNotASignal name => "`" ++ name ++ "` is not a signal"
  | .outsideInstance name => "reference to `" ++ name ++ "` outside the model instance"
  | .badTarget => "unsupported assignment target"
  | .anonymousEnum => "anonymous enum type"
  | .typeOfTypes => "type of types outside a type declaration"
  | .enumValue => "unsupported enum value"
  | .nameCollision first => "name collides after escaping with `" ++ first ++ "`"
  | .unresolvedGeneric => "unresolved generic"
  | .missingOutputs => "missing output-set"

end Cause

namespace FailureKind

/-- The kind in words. -/
def describe : FailureKind → String
  | .structural => "structural violation"
  | .unsupported => "unsupported construct"
  | .gap => "coordination gap"
  | .output => "output error"

/-- The message of a failure of this kind; a refused write has no module, object or detail. -/
def wording (kind : FailureKind) (module object detail : String) : String :=
  match kind with
  | .structural => "module `" ++ module ++ "`: structural violation in " ++ object ++ ": " ++ detail
  | .unsupported => "module `" ++ module ++ "`: " ++ detail ++ " in " ++ object
  | .gap => "module `" ++ module ++ "`: " ++ detail ++ " for " ++ object
  | .output =>
    "failed to write simulation model: an error occurred when formatting an argument"

end FailureKind

/-- A failure in words, for a reader. -/
structure Report where
  kind : FailureKind
  module : Option String
  message : String
deriving DecidableEq

/-- The report of a failure of this kind in the given words. -/
def Report.ofWords (kind : FailureKind) (module object detail : String) : Report where
  kind := kind
  module := if kind = .output then none else some module
  message := kind.wording module object detail

/-- The report of a failure. -/
def Failure.report : Failure → Report
  | .defect module object cause => .ofWords cause.kind module object cause.detail
  | .refusedWrite => .ofWords .output "" "" ""

end HdlSim
