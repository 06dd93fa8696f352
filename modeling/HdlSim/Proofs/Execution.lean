import HdlSim.Proofs.Program
import HdlSim.Proofs.Targets
import HdlSim.Site

/-!
# What statements do

Two meanings, under an arbitrary interpretation of the texts of host expressions.  `HostStmt.exec`
is the meaning of a host statement.  `Stmt.run` is the meaning of a statement of the design; it says
nothing about the host code but the texts of values and proxies.  Both give the sequence of writes
and invalidations that are performed, begun in some state; a state changes with what is performed.
-/

namespace HdlSim

/-- The outcome of a condition. -/
inductive Verdict where
  | isTrue
  | isFalse
  | isInvalid
deriving DecidableEq

/-- What a statement performs.  Signals are known by the texts of their proxies. -/
inductive Action (Value : Type) where
  | write (proxy : String) (value : Value)
  | writeAt (proxy : String) (index value : Value)
  | writeSlice (proxy : String) (high low value : Value)
  | invalidate (proxy : String)

/-- An interpretation of host code: what a text evaluates to in a state, what a value says as a
condition, whether it is valid as a selector, whether a selector matches a choice, and how the
state changes. -/
structure Interpretation (State Value : Type) where
  value : String → State → Value
  verdict : Value → Verdict
  isValid : Value → Bool
  isMatch : Value → Value → Bool
  perform : Action Value → State → State

namespace Interpretation

variable {State Value : Type}

/-- The state after some actions. -/
def after (I : Interpretation State Value) (actions : List (Action Value)) (σ : State) : State :=
  actions.foldl (fun σ action => I.perform action σ) σ

/-- The state after two lists of actions. -/
theorem after_append (I : Interpretation State Value) (as bs : List (Action Value)) (σ : State) :
    I.after (as ++ bs) σ = I.after bs (I.after as σ) :=
  List.foldl_append

end Interpretation

variable {State Value : Type}

/-! ### Host code -/

mutual

/-- What a host statement performs. -/
def HostStmt.exec (I : Interpretation State Value) : HostStmt → State → List (Action Value)
  | .write p v, σ => [.write p.text (I.value v.text σ)]
  | .writeAt p i v, σ => [.writeAt p.text (I.value i.text σ) (I.value v.text σ)]
  | .writeSlice p h l v, σ =>
    [.writeSlice p.text (I.value h.text σ) (I.value l.text σ) (I.value v.text σ)]
  | .writeInvalid p, _ => [.invalidate p.text]
  | .matchCond c onTrue onFalse onInvalid, σ =>
    match I.verdict (I.value c.text σ) with
    | .isTrue => HostStmt.execAll I onTrue σ
    | .isFalse => HostStmt.execAll I onFalse σ
    | .isInvalid => HostStmt.execAll I onInvalid σ
  | .select selector onInvalid arms otherwise, σ =>
    if I.isValid (I.value selector.text σ) then
      HostStmt.execArms I (I.value selector.text σ) (HostStmt.execOption I otherwise) arms σ
    else HostStmt.execAll I onInvalid σ

/-- What statements in order perform. -/
def HostStmt.execAll (I : Interpretation State Value) :
    List HostStmt → State → List (Action Value)
  | [], _ => []
  | first :: rest, σ =>
    HostStmt.exec I first σ ++ HostStmt.execAll I rest (I.after (HostStmt.exec I first σ) σ)

/-- What a body performs, if there is one. -/
def HostStmt.execOption (I : Interpretation State Value) :
    Option (List HostStmt) → State → List (Action Value)
  | none, _ => []
  | some body, σ => HostStmt.execAll I body σ

/-- The first arm with a choice that the selector matches. -/
def HostStmt.execArms (I : Interpretation State Value) (selector : Value)
    (otherwise : State → List (Action Value)) : List HostArm → State → List (Action Value)
  | [], σ => otherwise σ
  | ⟨choices, body⟩ :: rest, σ =>
    if choices.any fun c => I.isMatch selector (I.value c.text σ) then HostStmt.execAll I body σ
    else HostStmt.execArms I selector otherwise rest σ

end

/-! ### Statements of the design -/

namespace Site

/-- The text of a result. -/
def textOf : Except Failure HostExpr → String
  | .ok h => h.text
  | .error _ => ""

/-- The value of an expression in a state. -/
def eval (s : Site) (I : Interpretation State Value) (e : Expr) (σ : State) : Value :=
  I.value (textOf (s.value e)) σ

/-- The signals become invalid, each once, in the order in which they first occur. -/
def invalidations (s : Site) (signals : List Ident) : List (Action Value) :=
  signals.eraseDups.map fun n => .invalidate (textOf (s.proxyOf n))

/-- What an assignment performs. -/
def runAssign (s : Site) (I : Interpretation State Value) (target value : Expr) (σ : State) :
    List (Action Value) :=
  match target with
  | .name n => [.write (textOf (s.proxyOf n)) (s.eval I value σ)]
  | .index (.name n) i => [.writeAt (textOf (s.proxyOf n)) (s.eval I i σ) (s.eval I value σ)]
  | .slice (.name n) h l =>
    [.writeSlice (textOf (s.proxyOf n)) (s.eval I h σ) (s.eval I l σ) (s.eval I value σ)]
  | _ => []

mutual

/-- What a statement performs. -/
def run (s : Site) (I : Interpretation State Value) : Stmt → State → List (Action Value)
  | .assign target value, σ => s.runAssign I target value σ
  | .ifElse branches elseBody, σ =>
    s.runBranches I (optionWrites elseBody) (s.runOption I elseBody) branches σ
  | .case selector arms default, σ =>
    if I.isValid (s.eval I selector σ) then
      s.runArms I (s.eval I selector σ) (s.runOption I default) arms σ
    else s.invalidations (armWrites arms ++ optionWrites default)
  | .block body, σ => s.runAll I body σ
  | .null, _ => []

/-- What statements in order perform. -/
def runAll (s : Site) (I : Interpretation State Value) : List Stmt → State → List (Action Value)
  | [], _ => []
  | first :: rest, σ => s.run I first σ ++ s.runAll I rest (I.after (s.run I first σ) σ)

/-- What a body performs, if there is one. -/
def runOption (s : Site) (I : Interpretation State Value) :
    Option (List Stmt) → State → List (Action Value)
  | none, _ => []
  | some body, σ => s.runAll I body σ

/-- The first branch whose condition is not false: if it is true, its body runs, and if it is
invalid, all that this branch, the later ones and the else body may write becomes invalid.  Where
all conditions are false, the else body runs. -/
def runBranches (s : Site) (I : Interpretation State Value) (elseWrites : List Ident)
    (elseBody : State → List (Action Value)) : List IfBranch → State → List (Action Value)
  | [], σ => elseBody σ
  | ⟨condition, body⟩ :: rest, σ =>
    match I.verdict (s.eval I condition σ) with
    | .isTrue => s.runAll I body σ
    | .isFalse => s.runBranches I elseWrites elseBody rest σ
    | .isInvalid => s.invalidations (blockWrites body ++ branchWrites rest ++ elseWrites)

/-- The first arm with a choice that the selector matches, or else the default. -/
def runArms (s : Site) (I : Interpretation State Value) (selector : Value)
    (default : State → List (Action Value)) : List CaseArm → State → List (Action Value)
  | [], σ => default σ
  | ⟨choices, body⟩ :: rest, σ =>
    if choices.any fun c => I.isMatch selector (s.eval I c σ) then s.runAll I body σ
    else s.runArms I selector default rest σ

end

end Site

end HdlSim
