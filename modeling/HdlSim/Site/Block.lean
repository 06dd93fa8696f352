import HdlSim.Script
import HdlSim.Site

/-!
# Process bodies

The script for the statements of a process.  A condition has three outcomes, and so does the match
on it: true, false and unknown.  Where a condition or a selector is unknown, no branch is taken and
every signal that the statement could have written becomes invalid.
-/

namespace HdlSim.Site

/-- The line for an assignment.  The value comes first, then the target; a target is a signal, or
one index or slice of it. -/
def assignLine (s : Site) (target value : Expr) : Except Failure Line := do
  let v ← s.value value
  match target with
  | .name n => return .write (← s.proxyOf n) v
  | .index (.name n) i => do
    let proxy ← s.proxyOf n
    let index ← s.value i
    return .writeAt proxy index v
  | .slice (.name n) h l => do
    let proxy ← s.proxyOf n
    let high ← s.value h
    let low ← s.value l
    return .writeSlice proxy high low v
  | _ => throw (s.defect .badTarget)

/-- Makes signals invalid. -/
def invalidate (s : Site) (targets : List Ident) : Script Unit :=
  Script.forEach targets fun n => do Script.line (.writeInvalid (← s.proxyOf n))

/-- The choices that are equal to an earlier one, or to one seen before. -/
def repeatedChoices (seen : List Expr) : List Expr → List Expr
  | [] => []
  | e :: es =>
    if e ∈ seen then e :: repeatedChoices (e :: seen) es else repeatedChoices (e :: seen) es

/-- Reports every choice of a case statement that is equal to an earlier one. -/
def warnRepeated (s : Site) (arms : List CaseArm) : Script Unit :=
  Script.forEach (repeatedChoices [] (arms.flatMap CaseArm.choices)) fun _ =>
    Script.log (.duplicateChoice s.context.module s.object)

/-- The arm of a condition for the unknown outcome. -/
def invalidArm (s : Site) (targets : List Ident) : Script Unit :=
  match targets with
  | [] => Script.line .condInvalidEmpty
  | _ => do
    Script.enter .condInvalid
    s.invalidate targets
    Script.leave

/-- The arm of a condition for the false outcome, with what is then left to do. -/
def falseArm : Option (Script Unit) → Script Unit
  | none => Script.line .condFalseEmpty
  | some body => do
    Script.enter .condFalse
    body
    Script.leave

/-- The last arm of a case statement, for when no other matches. -/
def defaultArm : Option (Script Unit) → Script Unit
  | none => pure ()
  | some body => do
    Script.turn .elseBlock
    body

/-- The line that begins an arm of a case statement. -/
def armLine (s : Site) : List Expr → Except Failure Line
  | [] => throw (s.defect .armWithoutChoices)
  | choices => do return .elseIfMatches (← s.values choices)

mutual

/-- The script for a statement. -/
def stmt (s : Site) : Stmt → Script Unit
  | .assign target value => do Script.line (← s.assignLine target value)
  | .ifElse branches elseBody =>
    s.branches (optionTargets elseBody) (s.optionBlock elseBody) branches
  | .case selector arms default => do
    s.warnRepeated arms
    Script.enter .bareBlock
    Script.line (.letSelector (← s.value selector))
    Script.enter .ifSelectorInvalid
    s.invalidate (optionTargets default (armTargets arms []))
    s.arms arms
    defaultArm (s.optionBlock default)
    Script.leave
    Script.leave
  | .block body => s.block body
  | .null => pure ()

/-- The script for statements in order. -/
def block (s : Site) : List Stmt → Script Unit
  | [] => pure ()
  | first :: rest => do
    s.stmt first
    s.block rest

/-- The script for a body, if there is one. -/
def optionBlock (s : Site) : Option (List Stmt) → Option (Script Unit)
  | none => none
  | some body => some (s.block body)

/-- The script for the branches of an if statement, given the else body and the signals that it
writes.  Each further branch is nested in the false outcome of the one before it. -/
def branches (s : Site) (elseTargets : List Ident → List Ident) (elseBody : Option (Script Unit)) :
    List IfBranch → Script Unit
  | [] => Script.fail (s.defect .ifWithoutBranches)
  | ⟨condition, body⟩ :: rest => do
    Script.enter (.matchCond (← s.value condition))
    Script.enter .condTrue
    s.block body
    Script.leave
    falseArm (if rest.isEmpty then elseBody else some (s.branches elseTargets elseBody rest))
    s.invalidArm (elseTargets (branchTargets (⟨condition, body⟩ :: rest) []))
    Script.leave

/-- The script for the arms of a case statement. -/
def arms (s : Site) : List CaseArm → Script Unit
  | [] => pure ()
  | ⟨choices, body⟩ :: rest => do
    Script.turn (← s.armLine choices)
    s.block body
    s.arms rest

end

end HdlSim.Site
