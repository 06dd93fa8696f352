import HdlSim.Design.Expr

/-!
# Statements

The sequential statements of a process body.  Equality is decidable (`Stmt.beq_iff`).
-/

namespace HdlSim

mutual

/-- A sequential statement. -/
inductive Stmt where
  | assign (target value : Expr)
  /-- The first branch whose condition holds runs, or else the else body, if there is one. -/
  | ifElse (branches : List IfBranch) (elseBody : Option (List Stmt))
  /-- The first arm that has a matching choice runs, or else the default, if there is one. -/
  | case (selector : Expr) (arms : List CaseArm) (default : Option (List Stmt))
  | block (body : List Stmt)
  | null

/-- A guarded branch of an if statement. -/
structure IfBranch where
  condition : Expr
  body : List Stmt

/-- An arm of a case statement. -/
structure CaseArm where
  choices : List Expr
  body : List Stmt

end

mutual

/-- Structural equality of statements. -/
def Stmt.beq : Stmt → Stmt → Bool
  | .assign t v, .assign u w => t == u && v == w
  | .ifElse bs e, .ifElse cs f => IfBranch.beqList bs cs && Stmt.beqOption e f
  | .case s as d, .case t bs e => s == t && CaseArm.beqList as bs && Stmt.beqOption d e
  | .block b, .block c => Stmt.beqList b c
  | .null, .null => true
  | _, _ => false

/-- Equality of lists of statements, member by member. -/
def Stmt.beqList : List Stmt → List Stmt → Bool
  | [], [] => true
  | a :: as, b :: bs => Stmt.beq a b && Stmt.beqList as bs
  | _, _ => false

/-- Equality of bodies that may be absent. -/
def Stmt.beqOption : Option (List Stmt) → Option (List Stmt) → Bool
  | none, none => true
  | some a, some b => Stmt.beqList a b
  | _, _ => false

/-- Structural equality of branches. -/
def IfBranch.beq : IfBranch → IfBranch → Bool
  | ⟨c, b⟩, ⟨d, e⟩ => c == d && Stmt.beqList b e

/-- Equality of lists of branches, member by member. -/
def IfBranch.beqList : List IfBranch → List IfBranch → Bool
  | [], [] => true
  | a :: as, b :: bs => IfBranch.beq a b && IfBranch.beqList as bs
  | _, _ => false

/-- Structural equality of arms. -/
def CaseArm.beq : CaseArm → CaseArm → Bool
  | ⟨c, b⟩, ⟨d, e⟩ => c == d && Stmt.beqList b e

/-- Equality of lists of arms, member by member. -/
def CaseArm.beqList : List CaseArm → List CaseArm → Bool
  | [], [] => true
  | a :: as, b :: bs => CaseArm.beq a b && CaseArm.beqList as bs
  | _, _ => false

end

mutual

/-- The Boolean test decides equality of statements. -/
theorem Stmt.beq_iff : ∀ a b : Stmt, Stmt.beq a b = true ↔ a = b
  | .assign _ _, b => by cases b <;> simp [Stmt.beq]
  | .ifElse bs e, b => by
      cases b <;> simp [Stmt.beq, IfBranch.beqList_iff bs, Stmt.beqOption_iff e]
  | .case _ as d, b => by
      cases b <;> simp [Stmt.beq, CaseArm.beqList_iff as, Stmt.beqOption_iff d, and_assoc]
  | .block b, c => by cases c <;> simp [Stmt.beq, Stmt.beqList_iff b]
  | .null, b => by cases b <;> simp [Stmt.beq]

/-- The Boolean test decides equality of lists of statements. -/
theorem Stmt.beqList_iff : ∀ as bs : List Stmt, Stmt.beqList as bs = true ↔ as = bs
  | [], bs => by cases bs <;> simp [Stmt.beqList]
  | a :: as, bs => by cases bs <;> simp [Stmt.beqList, Stmt.beq_iff a, Stmt.beqList_iff as]

/-- The Boolean test decides equality of bodies that may be absent. -/
theorem Stmt.beqOption_iff :
    ∀ a b : Option (List Stmt), Stmt.beqOption a b = true ↔ a = b
  | none, b => by cases b <;> simp [Stmt.beqOption]
  | some a, b => by cases b <;> simp [Stmt.beqOption, Stmt.beqList_iff a]

/-- The Boolean test decides equality of branches. -/
theorem IfBranch.beq_iff : ∀ a b : IfBranch, IfBranch.beq a b = true ↔ a = b
  | ⟨_, b⟩, ⟨_, c⟩ => by simp [IfBranch.beq, Stmt.beqList_iff b c]

/-- The Boolean test decides equality of lists of branches. -/
theorem IfBranch.beqList_iff : ∀ as bs : List IfBranch, IfBranch.beqList as bs = true ↔ as = bs
  | [], bs => by cases bs <;> simp [IfBranch.beqList]
  | a :: as, bs => by
      cases bs <;> simp [IfBranch.beqList, IfBranch.beq_iff a, IfBranch.beqList_iff as]

/-- The Boolean test decides equality of arms. -/
theorem CaseArm.beq_iff : ∀ a b : CaseArm, CaseArm.beq a b = true ↔ a = b
  | ⟨_, b⟩, ⟨_, c⟩ => by simp [CaseArm.beq, Stmt.beqList_iff b c]

/-- The Boolean test decides equality of lists of arms. -/
theorem CaseArm.beqList_iff : ∀ as bs : List CaseArm, CaseArm.beqList as bs = true ↔ as = bs
  | [], bs => by cases bs <;> simp [CaseArm.beqList]
  | a :: as, bs => by
      cases bs <;> simp [CaseArm.beqList, CaseArm.beq_iff a, CaseArm.beqList_iff as]

end

instance : DecidableEq Stmt := fun a b => decidable_of_iff _ (Stmt.beq_iff a b)
instance : DecidableEq IfBranch := fun a b => decidable_of_iff _ (IfBranch.beq_iff a b)
instance : DecidableEq CaseArm := fun a b => decidable_of_iff _ (CaseArm.beq_iff a b)

/-- An if statement with one condition. -/
def Stmt.ofCondition (condition : Expr) (thenBody : List Stmt) (elseBody : Option (List Stmt)) :
    Stmt :=
  .ifElse [⟨condition, thenBody⟩] elseBody

/-- The signal that an assignment to this target writes: the name itself, or the bare name under
one index or slice. -/
def Expr.targetRoot? : Expr → Option Ident
  | .index base _ => base.asName?
  | .slice base _ _ => base.asName?
  | e => e.asName?

/-- The names collected so far with one more, unless it is already there. -/
def addTarget (seen : List Ident) : Option Ident → List Ident
  | some n => if n ∈ seen then seen else seen ++ [n]
  | none => seen

mutual

/-- The signals a statement writes, appended to those seen before it. -/
def Stmt.targets : Stmt → List Ident → List Ident
  | .assign target _, seen => addTarget seen target.targetRoot?
  | .ifElse branches elseBody, seen => optionTargets elseBody (branchTargets branches seen)
  | .case _ arms default, seen => optionTargets default (armTargets arms seen)
  | .block body, seen => blockTargets body seen
  | .null, seen => seen

/-- The signals that a list of statements writes, in source order of first occurrence. -/
def blockTargets : List Stmt → List Ident → List Ident
  | [], seen => seen
  | s :: rest, seen => blockTargets rest (s.targets seen)

/-- The signals that the bodies of the branches write. -/
def branchTargets : List IfBranch → List Ident → List Ident
  | [], seen => seen
  | ⟨_, body⟩ :: rest, seen => branchTargets rest (blockTargets body seen)

/-- The signals that the bodies of the arms write. -/
def armTargets : List CaseArm → List Ident → List Ident
  | [], seen => seen
  | ⟨_, body⟩ :: rest, seen => armTargets rest (blockTargets body seen)

/-- The signals that a body writes, if there is one. -/
def optionTargets : Option (List Stmt) → List Ident → List Ident
  | none, seen => seen
  | some body, seen => blockTargets body seen

end

end HdlSim
