import HdlSim.Proofs.Targets
import HdlSim.Session
import Mathlib.Logic.Relation

/-!
# Statements in another arrangement

The same process body can be arranged in several ways: a block may be opened up where it stands,
null statements may be left out, and the branches of an if statement behind the first may become an
if statement in its else body.  `Rearranges` is one such change, at any depth.  Since it leaves the
script of a body as it is, along with the signals that the body writes (`Rearranges.agree`), no
number of them makes a difference to what is written, reported or collected.

Main statement: `rearranged_bodies_agree`.
-/

namespace HdlSim

/-! ### Rearrangements -/

/-- **One rearrangement of a body.**  The first three rules are the rearrangements themselves, each
at the front of the body; the others say where in a body they may take place. -/
inductive Rearranges : List Stmt → List Stmt → Prop
  /-- A block is opened up. -/
  | splice (inner rest : List Stmt) : Rearranges (.block inner :: rest) (inner ++ rest)
  | dropNull (rest : List Stmt) : Rearranges (.null :: rest) rest
  /-- The branches behind the first become an if statement of their own. -/
  | nest (first second : IfBranch) (others : List IfBranch) (elseBody : Option (List Stmt))
      (rest : List Stmt) :
      Rearranges (.ifElse (first :: second :: others) elseBody :: rest)
        (.ifElse [first] (some [.ifElse (second :: others) elseBody]) :: rest)
  | later (st : Stmt) {body body' : List Stmt} (h : Rearranges body body') :
      Rearranges (st :: body) (st :: body')
  | inBlock {body body' : List Stmt} (h : Rearranges body body') (rest : List Stmt) :
      Rearranges (.block body :: rest) (.block body' :: rest)
  | inBranch (front : List IfBranch) (condition : Expr) {body body' : List Stmt}
      (h : Rearranges body body') (back : List IfBranch) (elseBody : Option (List Stmt))
      (rest : List Stmt) :
      Rearranges (.ifElse (front ++ ⟨condition, body⟩ :: back) elseBody :: rest)
        (.ifElse (front ++ ⟨condition, body'⟩ :: back) elseBody :: rest)
  | inElse (branches : List IfBranch) {body body' : List Stmt} (h : Rearranges body body')
      (rest : List Stmt) :
      Rearranges (.ifElse branches (some body) :: rest) (.ifElse branches (some body') :: rest)
  | inArm (selector : Expr) (front : List CaseArm) (choices : List Expr) {body body' : List Stmt}
      (h : Rearranges body body') (back : List CaseArm) (default : Option (List Stmt))
      (rest : List Stmt) :
      Rearranges (.case selector (front ++ ⟨choices, body⟩ :: back) default :: rest)
        (.case selector (front ++ ⟨choices, body'⟩ :: back) default :: rest)
  | inDefault (selector : Expr) (arms : List CaseArm) {body body' : List Stmt}
      (h : Rearranges body body') (rest : List Stmt) :
      Rearranges (.case selector arms (some body) :: rest)
        (.case selector arms (some body') :: rest)

/-! ### What a body comes to -/

/-- The bodies write the same signals in the same order and have the same script, at every site. -/
structure BodiesAgree (body body' : List Stmt) : Prop where
  writes : blockWrites body = blockWrites body'
  script : ∀ s : Site, s.block body = s.block body'

/-- The same of two statements. -/
structure StmtsAgree (st st' : Stmt) : Prop where
  writes : st.writes = st'.writes
  script : ∀ s : Site, s.stmt st = s.stmt st'

/-- Bodies agree if one statement in them does. -/
theorem StmtsAgree.bodies {st st' : Stmt} (h : StmtsAgree st st') (rest : List Stmt) :
    BodiesAgree (st :: rest) (st' :: rest) where
  writes := by rw [blockWrites, blockWrites, h.writes]
  script s := by rw [Site.block, Site.block, h.script]

/-- Bodies that agree do so behind any statement. -/
theorem BodiesAgree.cons {body body' : List Stmt} (h : BodiesAgree body body') (st : Stmt) :
    BodiesAgree (st :: body) (st :: body') where
  writes := by rw [blockWrites, blockWrites, h.writes]
  script s := by rw [Site.block, Site.block, h.script]

private theorem blockWrites_append (body rest : List Stmt) :
    blockWrites (body ++ rest) = blockWrites body ++ blockWrites rest := by
  induction body with
  | nil => rfl
  | cons st body ih => rw [List.cons_append, blockWrites, blockWrites, ih, List.append_assoc]

/-! ### Bodies inside of statements -/

section

variable {body body' : List Stmt}

/-- What branches write depends on what their bodies write. -/
theorem branchWrites_congr (h : blockWrites body = blockWrites body')
    (front : List IfBranch) (condition : Expr) (back : List IfBranch) :
    branchWrites (front ++ ⟨condition, body⟩ :: back) =
      branchWrites (front ++ ⟨condition, body'⟩ :: back) := by
  induction front with
  | nil => rw [List.nil_append, List.nil_append, branchWrites, branchWrites, h]
  | cons b front ih =>
      obtain ⟨c, inner⟩ := b
      rw [List.cons_append, List.cons_append, branchWrites, branchWrites, ih]

/-- What arms write depends on what their bodies write. -/
theorem armWrites_congr (h : blockWrites body = blockWrites body') (front : List CaseArm)
    (choices : List Expr) (back : List CaseArm) :
    armWrites (front ++ ⟨choices, body⟩ :: back) =
      armWrites (front ++ ⟨choices, body'⟩ :: back) := by
  induction front with
  | nil => rw [List.nil_append, List.nil_append, armWrites, armWrites, h]
  | cons arm front ih =>
      obtain ⟨cs, inner⟩ := arm
      rw [List.cons_append, List.cons_append, armWrites, armWrites, ih]

end

namespace Site

variable (s : Site)

/-- Two bodies in a row are written one after the other. -/
private theorem block_append (body rest : List Stmt) :
    s.block (body ++ rest) = s.block body >>= fun _ => s.block rest := by
  induction body with
  | nil => rw [List.nil_append, block, pure_bind]
  | cons st body ih => rw [List.cons_append, block, block, ih, bind_assoc]

/-- A body of one statement is written as the statement. -/
private theorem block_singleton (st : Stmt) : s.block [st] = s.stmt st := by
  rw [block, block]
  exact bind_pure_unit

variable {body body' : List Stmt} (h : BodiesAgree body body')

include h

/-- A body that may be missing is written as any body that agrees. -/
theorem optionBlock_congr : s.optionBlock (some body) = s.optionBlock (some body') := by
  rw [optionBlock, optionBlock, h.script]

/-- Branches are written alike if the bodies agree. -/
private theorem branches_congr (elseTargets : List Ident → List Ident)
    (elseBody : Option (Script Unit)) (front : List IfBranch) (condition : Expr)
    (back : List IfBranch) :
    s.branches elseTargets elseBody (front ++ ⟨condition, body⟩ :: back) =
      s.branches elseTargets elseBody (front ++ ⟨condition, body'⟩ :: back) := by
  induction front with
  | nil =>
      rw [List.nil_append, List.nil_append, branches, branches, h.script, branchTargets_eq,
        branchTargets_eq, branchWrites, branchWrites, h.writes]
  | cons b front ih =>
      obtain ⟨c, inner⟩ := b
      have hmore : ∀ body, (front ++ IfBranch.mk condition body :: back).isEmpty = false := by simp
      rw [List.cons_append, List.cons_append, branches, branches, ih, hmore, hmore,
        branchTargets_eq, branchTargets_eq, branchWrites, branchWrites,
        branchWrites_congr h.writes]

/-- Arms are written alike if the bodies agree. -/
private theorem arms_congr (front : List CaseArm) (choices : List Expr) (back : List CaseArm) :
    s.arms (front ++ ⟨choices, body⟩ :: back) = s.arms (front ++ ⟨choices, body'⟩ :: back) := by
  induction front with
  | nil => rw [List.nil_append, List.nil_append, arms, arms, h.script]
  | cons arm front ih =>
      obtain ⟨cs, inner⟩ := arm
      rw [List.cons_append, List.cons_append, arms, arms, ih]

end Site

section

variable {body body' : List Stmt} (h : BodiesAgree body body')

include h

/-- The targets of bodies that agree are the same. -/
theorem optionTargets_congr : optionTargets (some body) = optionTargets (some body') := by
  funext seen
  rw [optionTargets_eq, optionTargets_eq, optionWrites, optionWrites, h.writes]

private theorem stmtsAgree_block : StmtsAgree (.block body) (.block body') where
  writes := h.writes
  script := h.script

/-- If statements agree if the bodies of a branch do. -/
private theorem stmtsAgree_branch (front : List IfBranch) (condition : Expr) (back : List IfBranch)
    (elseBody : Option (List Stmt)) :
    StmtsAgree (.ifElse (front ++ ⟨condition, body⟩ :: back) elseBody)
      (.ifElse (front ++ ⟨condition, body'⟩ :: back) elseBody) where
  writes := by rw [Stmt.writes, Stmt.writes, branchWrites_congr h.writes]
  script s := by rw [Site.stmt, Site.stmt, s.branches_congr h]

/-- If statements agree if their last bodies do. -/
private theorem stmtsAgree_else (branches : List IfBranch) :
    StmtsAgree (.ifElse branches (some body)) (.ifElse branches (some body')) where
  writes := by rw [Stmt.writes, Stmt.writes, optionWrites, optionWrites, h.writes]
  script s := by rw [Site.stmt, Site.stmt, s.optionBlock_congr h, optionTargets_congr h]

/-- Case statements agree if the bodies of an arm do. -/
private theorem stmtsAgree_arm (selector : Expr) (front : List CaseArm) (choices : List Expr)
    (back : List CaseArm) (default : Option (List Stmt)) :
    StmtsAgree (.case selector (front ++ ⟨choices, body⟩ :: back) default)
      (.case selector (front ++ ⟨choices, body'⟩ :: back) default) where
  writes := by rw [Stmt.writes, Stmt.writes, armWrites_congr h.writes]
  script s := by
    have hchoices : (front ++ CaseArm.mk choices body :: back).flatMap CaseArm.choices =
        (front ++ CaseArm.mk choices body' :: back).flatMap CaseArm.choices := by simp
    rw [Site.stmt, Site.stmt, Site.warnRepeated, Site.warnRepeated, hchoices, s.arms_congr h,
      armTargets_eq, armTargets_eq, armWrites_congr h.writes]

private theorem stmtsAgree_default (selector : Expr) (arms : List CaseArm) :
    StmtsAgree (.case selector arms (some body)) (.case selector arms (some body')) where
  writes := by rw [Stmt.writes, Stmt.writes, optionWrites, optionWrites, h.writes]
  script s := by rw [Site.stmt, Site.stmt, s.optionBlock_congr h, optionTargets_congr h]

end

/-- An if statement in the else body is written like further branches. -/
theorem stmtsAgree_nest (first second : IfBranch) (others : List IfBranch)
    (elseBody : Option (List Stmt)) :
    StmtsAgree (.ifElse (first :: second :: others) elseBody)
      (.ifElse [first] (some [.ifElse (second :: others) elseBody])) where
  writes := by
    obtain ⟨condition, inner⟩ := first
    simp [Stmt.writes, branchWrites, optionWrites, blockWrites]
  script s := by
    obtain ⟨condition, inner⟩ := first
    -- Both ways collect the targets from the same parts in the same order.
    have htargets :
        optionTargets elseBody (branchTargets (⟨condition, inner⟩ :: second :: others) []) =
          optionTargets (some [.ifElse (second :: others) elseBody])
            (branchTargets [⟨condition, inner⟩] []) := rfl
    rw [Site.stmt, Site.stmt, Site.branches, Site.branches, htargets, Site.optionBlock,
      Site.block_singleton, Site.stmt]
    rfl

/-- **One rearrangement** leaves the script and the written signals as they are. -/
theorem Rearranges.agree {body body' : List Stmt} (h : Rearranges body body') :
    BodiesAgree body body' := by
  induction h with
  | splice inner rest =>
      exact ⟨by rw [blockWrites, Stmt.writes, blockWrites_append],
        fun s => by rw [Site.block, Site.stmt, s.block_append]⟩
  | dropNull rest =>
      exact ⟨rfl, fun s => by rw [Site.block, Site.stmt, pure_bind]⟩
  | nest first second others elseBody rest =>
      exact (stmtsAgree_nest first second others elseBody).bodies rest
  | later st _ ih => exact ih.cons st
  | inBlock _ rest ih => exact (stmtsAgree_block ih).bodies rest
  | inBranch front condition _ back elseBody rest ih =>
      exact (stmtsAgree_branch ih front condition back elseBody).bodies rest
  | inElse branches _ rest ih => exact (stmtsAgree_else ih branches).bodies rest
  | inArm selector front choices _ back default rest ih =>
      exact (stmtsAgree_arm ih selector front choices back default).bodies rest
  | inDefault selector arms _ rest ih => exact (stmtsAgree_default ih selector arms).bodies rest

/-- Any number of rearrangements, in either direction. -/
theorem bodiesAgree_of_eqvGen {body body' : List Stmt}
    (h : Relation.EqvGen Rearranges body body') : BodiesAgree body body' := by
  induction h with
  | rel _ _ h => exact h.agree
  | refl _ => exact ⟨rfl, fun _ => rfl⟩
  | symm _ _ _ ih => exact ⟨ih.writes.symm, fun s => (ih.script s).symm⟩
  | trans _ _ _ _ _ ih ih' =>
      exact ⟨ih.writes.trans ih'.writes, fun s => (ih.script s).trans (ih'.script s)⟩

/-- **Bodies in another arrangement are written alike.**  At every site and in every session, with
any level of indentation and any limit on the sink, they leave the same text and the same level,
report the same, and end the same way, be it with the same failure; and the same targets are
collected from them. -/
theorem rearranged_bodies_agree {body body' : List Stmt}
    (h : Relation.EqvGen Rearranges body body') :
    (∀ (s : Site) (session : Session),
      session.run (s.block body) = session.run (s.block body')) ∧
      ∀ seen, blockTargets body seen = blockTargets body' seen := by
  have hagree := bodiesAgree_of_eqvGen h
  constructor
  · intro s session
    rw [hagree.script s]
  · intro seen
    rw [blockTargets_eq, blockTargets_eq, hagree.writes]

/-- A block with a null statement in an arm, and an if statement with two branches behind it. -/
theorem rearranged_bodies_agree_chain :
    let write : Stmt := .assign (.name ⟨1⟩) (.literal (.bool true))
    let body : List Stmt :=
      [.case (.name ⟨0⟩) [⟨[.literal (.int 1)], [.block [.null, write]]⟩] none,
        .ifElse [⟨.name ⟨0⟩, [write]⟩, ⟨.name ⟨1⟩, []⟩] (some [write])]
    let body' : List Stmt :=
      [.case (.name ⟨0⟩) [⟨[.literal (.int 1)], [write]⟩] none,
        .ifElse [⟨.name ⟨0⟩, [write]⟩] (some [.ifElse [⟨.name ⟨1⟩, []⟩] (some [write])])]
    Relation.EqvGen Rearranges body body' ∧
      (∀ (s : Site) (session : Session),
        session.run (s.block body) = session.run (s.block body')) ∧
      ∀ seen, blockTargets body seen = blockTargets body' seen := by
  intro write body body'
  have hsplice := Rearranges.inArm (.name ⟨0⟩) [] [.literal (.int 1)] (.splice [.null, write] [])
    [] none [.ifElse [⟨.name ⟨0⟩, [write]⟩, ⟨.name ⟨1⟩, []⟩] (some [write])]
  have hnull := Rearranges.inArm (.name ⟨0⟩) [] [.literal (.int 1)] (.dropNull [write])
    [] none [.ifElse [⟨.name ⟨0⟩, [write]⟩, ⟨.name ⟨1⟩, []⟩] (some [write])]
  have hnest := Rearranges.later (.case (.name ⟨0⟩) [⟨[.literal (.int 1)], [write]⟩] none)
    (.nest ⟨.name ⟨0⟩, [write]⟩ ⟨.name ⟨1⟩, []⟩ [] (some [write]) [])
  have h : Relation.EqvGen Rearranges body body' :=
    .trans _ _ _ (.rel _ _ hsplice) (.trans _ _ _ (.rel _ _ hnull) (.rel _ _ hnest))
  exact ⟨h, rearranged_bodies_agree h⟩

end HdlSim
