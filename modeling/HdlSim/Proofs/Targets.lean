import HdlSim.Design.Stmt

/-!
# The signals that statements write

A statement writes the signals that the assignments in it have as their targets, in the order of
the source (`Stmt.writes`).  The targets that are collected for a body are those signals, each at
its first occurrence (`blockTargets_eq`).
-/

namespace HdlSim

mutual

/-- The signals that a statement may write, once for every assignment. -/
def Stmt.writes : Stmt → List Ident
  | .assign target _ => target.targetRoot?.toList
  | .ifElse branches elseBody => branchWrites branches ++ optionWrites elseBody
  | .case _ arms default => armWrites arms ++ optionWrites default
  | .block body => blockWrites body
  | .null => []

/-- The signals that statements in order may write. -/
def blockWrites : List Stmt → List Ident
  | [] => []
  | first :: rest => first.writes ++ blockWrites rest

/-- The signals that the bodies of branches may write. -/
def branchWrites : List IfBranch → List Ident
  | [] => []
  | ⟨_, body⟩ :: rest => blockWrites body ++ branchWrites rest

/-- The signals that the bodies of arms may write. -/
def armWrites : List CaseArm → List Ident
  | [] => []
  | ⟨_, body⟩ :: rest => blockWrites body ++ armWrites rest

/-- The signals that a body may write, if there is one. -/
def optionWrites : Option (List Stmt) → List Ident
  | none => []
  | some body => blockWrites body

end

/-- What a body writes is written by one of its statements. -/
theorem mem_blockWrites {n : Ident} {body : List Stmt} :
    n ∈ blockWrites body ↔ ∃ st ∈ body, n ∈ st.writes := by
  induction body with
  | nil => simp [blockWrites]
  | cons st body ih => simp [blockWrites, ih]

/-- What branches write is written by the body of one of them. -/
theorem mem_branchWrites {n : Ident} {branches : List IfBranch} :
    n ∈ branchWrites branches ↔ ∃ b ∈ branches, n ∈ blockWrites b.body := by
  induction branches with
  | nil => simp [branchWrites]
  | cons b branches ih =>
      obtain ⟨condition, body⟩ := b
      simp [branchWrites, ih]

/-- What arms write is written by the body of one of them. -/
theorem mem_armWrites {n : Ident} {arms : List CaseArm} :
    n ∈ armWrites arms ↔ ∃ arm ∈ arms, n ∈ blockWrites arm.body := by
  induction arms with
  | nil => simp [armWrites]
  | cons arm arms ih =>
      obtain ⟨choices, body⟩ := arm
      simp [armWrites, ih]

/-- A body that may be missing writes what it writes if it is there. -/
theorem mem_optionWrites {n : Ident} {body : Option (List Stmt)} :
    n ∈ optionWrites body ↔ ∃ b ∈ body, n ∈ blockWrites b := by
  cases body <;> simp [optionWrites]

/-- Signals seen before, with further ones added in order. -/
def addTargets (seen ns : List Ident) : List Ident :=
  ns.foldl (fun seen n => addTarget seen (some n)) seen

/-- Targets are added one after the other. -/
theorem addTargets_append (seen ns ms : List Ident) :
    addTargets seen (ns ++ ms) = addTargets (addTargets seen ns) ms :=
  List.foldl_append

mutual

/-- The targets of a statement are what it writes, each once. -/
theorem Stmt.targets_eq : ∀ (st : Stmt) (seen : List Ident),
    st.targets seen = addTargets seen st.writes
  | .assign target _, seen => by
      rw [Stmt.targets, Stmt.writes]
      cases target.targetRoot? <;> rfl
  | .ifElse branches elseBody, seen => by
      rw [Stmt.targets, Stmt.writes, addTargets_append, branchTargets_eq branches seen,
        optionTargets_eq elseBody]
  | .case _ arms default, seen => by
      rw [Stmt.targets, Stmt.writes, addTargets_append, armTargets_eq arms seen,
        optionTargets_eq default]
  | .block body, seen => by rw [Stmt.targets, Stmt.writes, blockTargets_eq body seen]
  | .null, seen => rfl

/-- The targets of a body are what it writes, each once. -/
theorem blockTargets_eq : ∀ (body : List Stmt) (seen : List Ident),
    blockTargets body seen = addTargets seen (blockWrites body)
  | [], seen => rfl
  | first :: rest, seen => by
      rw [blockTargets, blockWrites, addTargets_append, Stmt.targets_eq first seen,
        blockTargets_eq rest]

/-- The targets of branches are what they write, each once. -/
theorem branchTargets_eq : ∀ (branches : List IfBranch) (seen : List Ident),
    branchTargets branches seen = addTargets seen (branchWrites branches)
  | [], seen => rfl
  | ⟨_, body⟩ :: rest, seen => by
      rw [branchTargets, branchWrites, addTargets_append, blockTargets_eq body seen,
        branchTargets_eq rest]

/-- The targets of arms are what they write, each once. -/
theorem armTargets_eq : ∀ (arms : List CaseArm) (seen : List Ident),
    armTargets arms seen = addTargets seen (armWrites arms)
  | [], seen => rfl
  | ⟨_, body⟩ :: rest, seen => by
      rw [armTargets, armWrites, addTargets_append, blockTargets_eq body seen,
        armTargets_eq rest]

/-- The targets of a body that may be missing are what it writes, each once. -/
theorem optionTargets_eq : ∀ (body : Option (List Stmt)) (seen : List Ident),
    optionTargets body seen = addTargets seen (optionWrites body)
  | none, seen => rfl
  | some body, seen => by rw [optionTargets, optionWrites, blockTargets_eq body seen]

end

/-- Signals that were not seen before are added at their first occurrence. -/
theorem addTargets_eq (seen ns : List Ident) :
    addTargets seen ns = seen ++ (ns.filter (· ∉ seen)).eraseDups := by
  induction ns generalizing seen with
  | nil => simp [addTargets]
  | cons n ns ih =>
      have hcons : addTargets seen (n :: ns) = addTargets (addTarget seen (some n)) ns := rfl
      by_cases hmem : n ∈ seen
      · have hadd : addTarget seen (some n) = seen := by simp [addTarget, hmem]
        rw [hcons, hadd, ih]
        simp [hmem]
      · have hadd : addTarget seen (some n) = seen ++ [n] := by simp [addTarget, hmem]
        have hfilter : (n :: ns).filter (· ∉ seen) = n :: ns.filter (· ∉ seen) := by
          simp [hmem]
        have hrest : ns.filter (· ∉ seen ++ [n]) = (ns.filter (· ∉ seen)).filter (!· == n) := by
          rw [List.filter_filter]
          refine List.filter_congr fun m _ => ?_
          by_cases hm : m = n <;> simp [hm]
        rw [hcons, hadd, ih, hfilter, List.eraseDups_cons, hrest, List.append_assoc,
          List.singleton_append]

/-- **Collected targets.**  Begun with nothing, the targets are the written signals, each at its
first occurrence. -/
theorem addTargets_nil (ns : List Ident) : addTargets [] ns = ns.eraseDups := by
  have hfilter : ns.filter (· ∉ ([] : List Ident)) = ns := by simp
  rw [addTargets_eq, hfilter, List.nil_append]

/-- The targets of the branches that are left and of the else body. -/
theorem ifTargets_eq (branches : List IfBranch) (elseBody : Option (List Stmt)) :
    optionTargets elseBody (branchTargets branches []) =
      (branchWrites branches ++ optionWrites elseBody).eraseDups := by
  rw [optionTargets_eq, branchTargets_eq, ← addTargets_append, addTargets_nil]

/-- The targets of all arms and of the default. -/
theorem caseTargets_eq (arms : List CaseArm) (default : Option (List Stmt)) :
    optionTargets default (armTargets arms []) =
      (armWrites arms ++ optionWrites default).eraseDups := by
  rw [optionTargets_eq, armTargets_eq, ← addTargets_append, addTargets_nil]

end HdlSim
