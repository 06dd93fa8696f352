import HdlSim.Proofs.Script
import HdlSim.Site.Block

/-!
# The scripts of statements

What the script of a statement with several parts is made of, when it succeeds: the values that it
needs, the scripts of its parts, and the lines around them.  Statements stand in lists inside of
other statements, so induction on a statement (`Stmt.bodyInduction`) gives a hypothesis for every
statement of every body.
-/

namespace HdlSim

section

variable {P : Stmt → Prop} (assign : ∀ target value, P (.assign target value))
  (ifElse : ∀ branches elseBody, (∀ b ∈ branches, ∀ st ∈ b.body, P st) →
    (∀ body ∈ elseBody, ∀ st ∈ body, P st) → P (.ifElse branches elseBody))
  (case : ∀ selector arms default, (∀ arm ∈ arms, ∀ st ∈ arm.body, P st) →
    (∀ body ∈ default, ∀ st ∈ body, P st) → P (.case selector arms default))
  (block : ∀ body, (∀ st ∈ body, P st) → P (.block body)) (null : P .null)

include assign ifElse case block null

/-- **Induction on statements.** -/
@[elab_as_elim]
theorem Stmt.bodyInduction (st : Stmt) : P st := by
  -- The motives are for branches, arms, lists of branches, optional bodies, lists of arms, bodies.
  refine @Stmt.rec P (fun b => ∀ st ∈ b.body, P st) (fun arm => ∀ st ∈ arm.body, P st)
    (fun branches => ∀ b ∈ branches, ∀ st ∈ b.body, P st)
    (fun body => ∀ b ∈ body, ∀ st ∈ b, P st)
    (fun arms => ∀ arm ∈ arms, ∀ st ∈ arm.body, P st) (fun body => ∀ st ∈ body, P st)
    assign ifElse case block null (fun _ _ hbody => hbody) (fun _ _ hbody => hbody)
    (by simp) ?_ (by simp) ?_ (by simp) ?_ (by simp) ?_ st
  · intro b branches hb hbranches
    exact List.forall_mem_cons.mpr ⟨hb, hbranches⟩
  · intro body hbody
    simpa using hbody
  · intro arm arms harm harms
    exact List.forall_mem_cons.mpr ⟨harm, harms⟩
  · intro st body hst hbody
    exact List.forall_mem_cons.mpr ⟨hst, hbody⟩

end

namespace Site

/-- What is written for branches: a match on the first condition, with the body, what comes instead
of it, and what happens if the condition has no value. -/
theorem branches_yields {s : Site} {elseTargets : List Ident → List Ident}
    {elseBody : Option (Script Unit)} {condition : Expr} {body : List Stmt} {rest : List IfBranch}
    {steps : List Step}
    (h : (s.branches elseTargets elseBody (⟨condition, body⟩ :: rest)).Yields steps ()) :
    ∃ c onTrue onFalse onInvalid, s.value condition = .ok c ∧ (s.block body).Yields onTrue () ∧
      (falseArm (if rest.isEmpty then elseBody
        else some (s.branches elseTargets elseBody rest))).Yields onFalse () ∧
      (s.invalidArm (elseTargets (branchTargets (⟨condition, body⟩ :: rest) []))).Yields
        onInvalid () ∧
      steps = .write (.enter (.matchCond c)) ::
        ((.write (.enter .condTrue) :: onTrue ++ [Step.write (.leave .close)]) ++ onFalse ++
          onInvalid) ++ [Step.write (.leave .close)] := by
  rw [Site.branches] at h
  obtain ⟨c, hc, hmatch⟩ := Script.yields_lift_bind_iff.mp h
  obtain ⟨_, htrue, hsteps⟩ := Script.yields_step_then_iff.mp hmatch
  obtain ⟨_, hbody, hsteps₁⟩ := Script.yields_step_then_iff.mp htrue
  obtain ⟨onTrue, _, hinner, hleave, hsteps₂⟩ := Script.yields_then_iff.mp hbody
  obtain ⟨_, hfalse, hsteps₃⟩ := Script.yields_step_then_iff.mp hleave
  obtain ⟨onFalse, _, honFalse, hinvalid, hsteps₄⟩ := Script.yields_then_iff.mp hfalse
  obtain ⟨onInvalid, last, honInvalid, hlast, hsteps₅⟩ := Script.yields_then_iff.mp hinvalid
  have hclose := Script.yields_leave_iff.mp hlast
  refine ⟨c, onTrue, onFalse, onInvalid, hc, hinner, honFalse, honInvalid, ?_⟩
  simp [hsteps, hsteps₁, hsteps₂, hsteps₃, hsteps₄, hsteps₅, hclose]

/-- What is written for a case statement: warnings, then a block with the selector, the arms and the
default. -/
theorem case_yields {s : Site} {selector : Expr} {arms : List CaseArm}
    {default : Option (List Stmt)} {steps : List Step}
    (h : (s.stmt (.case selector arms default)).Yields steps ()) :
    ∃ warnings sel onInvalid tried otherwise, (s.warnRepeated arms).Yields warnings () ∧
      s.value selector = .ok sel ∧
      (s.invalidate (optionTargets default (armTargets arms []))).Yields onInvalid () ∧
      (s.arms arms).Yields tried () ∧ (defaultArm (s.optionBlock default)).Yields otherwise () ∧
      steps = warnings ++
        ([Step.write (.enter .bareBlock), .write (.line (.letSelector sel)),
            .write (.enter .ifSelectorInvalid)] ++ onInvalid ++ (tried ++ otherwise) ++
          [Step.write (.leave .close), .write (.leave .close)]) := by
  rw [stmt] at h
  obtain ⟨warnings, _, hwarnings, hbare, hsteps⟩ := Script.yields_then_iff.mp h
  obtain ⟨_, hlift, hsteps₁⟩ := Script.yields_step_then_iff.mp hbare
  obtain ⟨sel, hsel, hlet⟩ := Script.yields_lift_bind_iff.mp hlift
  obtain ⟨_, htest, hsteps₂⟩ := Script.yields_step_then_iff.mp hlet
  obtain ⟨_, hbody, hsteps₃⟩ := Script.yields_step_then_iff.mp htest
  obtain ⟨onInvalid, _, honInvalid, harms, hsteps₄⟩ := Script.yields_then_iff.mp hbody
  obtain ⟨tried, _, htried, hdefault, hsteps₅⟩ := Script.yields_then_iff.mp harms
  obtain ⟨otherwise, _, hotherwise, hleave, hsteps₆⟩ := Script.yields_then_iff.mp hdefault
  obtain ⟨_, hlast, hsteps₇⟩ := Script.yields_step_then_iff.mp hleave
  have hclose := Script.yields_leave_iff.mp hlast
  refine ⟨warnings, sel, onInvalid, tried, otherwise, hwarnings, hsel, honInvalid, htried,
    hotherwise, ?_⟩
  simp [hsteps, hsteps₁, hsteps₂, hsteps₃, hsteps₄, hsteps₅, hsteps₆, hsteps₇, hclose]

/-- What is written for arms: a test for the first one and its body, then the others. -/
theorem arms_yields {s : Site} {choices : List Expr} {body : List Stmt} {rest : List CaseArm}
    {steps : List Step} (h : (s.arms (⟨choices, body⟩ :: rest)).Yields steps ()) :
    ∃ values inner others, choices ≠ [] ∧ s.values choices = .ok values ∧
      (s.block body).Yields inner () ∧ (s.arms rest).Yields others () ∧
      steps = .write (.turn (.elseIfMatches values)) :: (inner ++ others) := by
  rw [Site.arms] at h
  obtain ⟨l, harm, hturn⟩ := Script.yields_lift_bind_iff.mp h
  obtain ⟨_, hbody, hsteps⟩ := Script.yields_step_then_iff.mp hturn
  obtain ⟨inner, others, hinner, hothers, hsteps₁⟩ := Script.yields_then_iff.mp hbody
  cases choices with
  | nil => simp [armLine] at harm
  | cons choice choices =>
      obtain ⟨values, hvalues, hline⟩ := Except.bind_eq_ok_iff.mp harm
      obtain rfl := Except.pure_eq_ok_iff.mp hline
      exact ⟨values, inner, others, by simp, hvalues, hinner, hothers, by simp [hsteps, hsteps₁]⟩

/-- Reports do not fail. -/
theorem warnRepeated_outcome (s : Site) (arms : List CaseArm) :
    (s.warnRepeated arms).outcome = .ok () :=
  Script.outcome_forEach_ok_iff.mpr fun _ _ => rfl

end Site

end HdlSim
