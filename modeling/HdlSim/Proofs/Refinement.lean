import HdlSim.Proofs.Emission
import HdlSim.Proofs.Execution

/-!
# Process bodies do what they say

The text that is written for the statements of a process, read back as host code and executed,
performs exactly what the statements mean.  The text is that of a host program that mirrors the
statements, and such a program means what they mean, by induction over the two (`Implements`).  The
result is `block_text_executes`.
-/

namespace HdlSim

open HostExpr

/-! ### From host programs to meaning -/

/-- What is performed under every interpretation and from every state. -/
def Meaning : Type 1 :=
  (State Value : Type) → Interpretation State Value → State → List (Action Value)

/-- The host program means this. -/
def Means (prog : List HostStmt) (meaning : Meaning) : Prop :=
  ∀ State Value (I : Interpretation State Value) σ,
    HostStmt.execAll I prog σ = meaning State Value I σ

/-- The steps write a host program that means this. -/
def Implements (steps : List Step) (meaning : Meaning) : Prop :=
  ∃ prog, Emits steps prog ∧ Means prog meaning

/-- Two programs in a row run one after the other. -/
theorem HostStmt.execAll_append {State Value : Type} (I : Interpretation State Value)
    (p q : List HostStmt) (σ : State) :
    HostStmt.execAll I (p ++ q) σ =
      HostStmt.execAll I p σ ++ HostStmt.execAll I q (I.after (HostStmt.execAll I p σ) σ) := by
  induction p generalizing σ with
  | nil => simp [HostStmt.execAll, Interpretation.after]
  | cons st p ih =>
      rw [List.cons_append, HostStmt.execAll, HostStmt.execAll, ih, Interpretation.after_append,
        List.append_assoc]

/-- A program of one statement. -/
theorem HostStmt.execAll_singleton {State Value : Type} (I : Interpretation State Value)
    (st : HostStmt) (σ : State) : HostStmt.execAll I [st] σ = st.exec I σ := by
  simp [HostStmt.execAll]

private theorem HostStmt.execAll_getD {State Value : Type} (I : Interpretation State Value)
    (body : Option (List HostStmt)) (σ : State) :
    HostStmt.execAll I (body.getD []) σ = HostStmt.execOption I body σ := by
  cases body <;> rfl

/-! ### From statements to meaning -/

section

variable {s : Site}

/-- An expression means what its text means. -/
theorem Site.eval_eq {State Value : Type} {e : Expr} {h : HostExpr} (hvalue : s.value e = .ok h)
    (I : Interpretation State Value) (σ : State) : s.eval I e σ = I.value h.text σ := by
  rw [eval, hvalue, textOf]

/-- Signals become invalid in order. -/
theorem Invalidates.exec_eq {State Value : Type} (I : Interpretation State Value) {ns : List Ident}
    {prog : List HostStmt} (h : Invalidates s ns prog) (σ : State) :
    HostStmt.execAll I prog σ = ns.map fun n => .invalidate (Site.textOf (s.proxyOf n)) := by
  induction h generalizing σ with
  | nil => rfl
  | cons hp hrest ih =>
      rw [HostStmt.execAll, ih, HostStmt.exec, List.map_cons, hp]
      rfl

/-- Choices are tested by their values. -/
theorem Site.any_choices {State Value : Type} {choices : List Expr} {values : List HostExpr}
    (h : s.values choices = .ok values) (I : Interpretation State Value) (selector : Value)
    (σ : State) :
    (values.any fun c => I.isMatch selector (I.value c.text σ)) =
      choices.any fun c => I.isMatch selector (s.eval I c σ) := by
  induction choices generalizing values with
  | nil =>
      obtain rfl : [] = values := by simpa [Site.values] using h
      rfl
  | cons c choices ih =>
      rw [Site.values] at h
      obtain ⟨v, hv, hrest⟩ := Except.bind_eq_ok_iff.mp h
      obtain ⟨vs, hvs, hcons⟩ := Except.bind_eq_ok_iff.mp hrest
      obtain rfl := Except.pure_eq_ok_iff.mp hcons
      rw [List.any_cons, List.any_cons, ih hvs, eval_eq hv]

mutual

/-- **A host program that mirrors a statement** means what the statement means. -/
theorem StmtMirrors.exec_eq {State Value : Type} (I : Interpretation State Value) :
    ∀ {st : Stmt} {prog : List HostStmt}, StmtMirrors s st prog → ∀ σ,
      HostStmt.execAll I prog σ = s.run I st σ
  | _, _, .write hp hv, σ => by
      simp [HostStmt.execAll_singleton, HostStmt.exec, Site.run, Site.runAssign, Site.eval_eq hv,
        hp, Site.textOf]
  | _, _, .writeAt hp hi hv, σ => by
      simp [HostStmt.execAll_singleton, HostStmt.exec, Site.run, Site.runAssign, Site.eval_eq hv,
        Site.eval_eq hi, hp, Site.textOf]
  | _, _, .writeSlice hp hh hl hv, σ => by
      simp [HostStmt.execAll_singleton, HostStmt.exec, Site.run, Site.runAssign, Site.eval_eq hv,
        Site.eval_eq hh, Site.eval_eq hl, hp, Site.textOf]
  | _, _, .ifElse hbranches, σ => by
      rw [HostStmt.execAll_singleton, hbranches.exec_eq I, Site.run]
  | _, _, .case hsel hinvalid harms hdefault, σ => by
      rw [HostStmt.execAll_singleton, HostStmt.exec, Site.run, Site.eval_eq hsel,
        harms.exec_eq I _ (hdefault.exec_eq I), hinvalid.exec_eq I, caseTargets_eq]
      rfl
  | _, _, .block hbody, σ => by
      rw [hbody.exec_eq I, Site.run]
  | _, _, .null, _ => rfl

/-- A program that mirrors a body does what the body says. -/
theorem BlockMirrors.exec_eq {State Value : Type} (I : Interpretation State Value) :
    ∀ {body : List Stmt} {prog : List HostStmt}, BlockMirrors s body prog → ∀ σ,
      HostStmt.execAll I prog σ = s.runAll I body σ
  | _, _, .nil, σ => rfl
  | _, _, .cons hfirst hrest, σ => by
      rw [HostStmt.execAll_append, hfirst.exec_eq I, hrest.exec_eq I, Site.runAll]

/-- A program that may be missing does what the body says, if there is one. -/
theorem OptionMirrors.exec_eq {State Value : Type} (I : Interpretation State Value) :
    ∀ {body : Option (List Stmt)} {prog : Option (List HostStmt)}, OptionMirrors s body prog →
      ∀ σ, HostStmt.execOption I prog σ = s.runOption I body σ
  | _, _, .none, _ => rfl
  | _, _, .some hbody, σ => hbody.exec_eq I σ

/-- A match that mirrors branches does what they say. -/
theorem BranchesMirror.exec_eq {State Value : Type} (I : Interpretation State Value) :
    ∀ {elseBody : Option (List Stmt)} {branches : List IfBranch} {st : HostStmt},
      BranchesMirror s elseBody branches st → ∀ σ,
      st.exec I σ =
        s.runBranches I (optionWrites elseBody) (s.runOption I elseBody) branches σ
  | _, _, _, .last hc hbody helse hinvalid, σ => by
      rw [HostStmt.exec, Site.runBranches, Site.eval_eq hc, hbody.exec_eq I,
        HostStmt.execAll_getD, helse.exec_eq I, hinvalid.exec_eq I, ifTargets_eq, branchWrites]
      rfl
  | _, _, _, .more hc hbody hrest hinvalid, σ => by
      rw [HostStmt.exec, Site.runBranches, Site.eval_eq hc, hbody.exec_eq I,
        HostStmt.execAll_singleton, hrest.exec_eq I, hinvalid.exec_eq I, ifTargets_eq, branchWrites]
      rfl

/-- A chain of tests that mirrors arms does what they say. -/
theorem ArmsMirror.exec_eq {State Value : Type} (I : Interpretation State Value) :
    ∀ {arms : List CaseArm} {hostArms : List HostArm}, ArmsMirror s arms hostArms →
      ∀ (selector : Value) {otherwise : State → List (Action Value)}
        {default : State → List (Action Value)}, (∀ σ, otherwise σ = default σ) → ∀ σ,
      HostStmt.execArms I selector otherwise hostArms σ = s.runArms I selector default arms σ
  | _, _, .nil, selector, _, _, hdefault, σ => hdefault σ
  | _, _, .cons hvalues hbody hrest, selector, _, _, hdefault, σ => by
      rw [HostStmt.execArms, Site.runArms, Site.any_choices hvalues, hbody.exec_eq I,
        hrest.exec_eq I selector hdefault]

end

end

/-- What is written for statements means what they mean. -/
theorem Site.block_implements {s : Site} (body : List Stmt) {steps : List Step}
    (h : (s.block body).Yields steps ()) : Implements steps fun _ _ I => s.runAll I body := by
  obtain ⟨prog, hemits, hmirrors⟩ := block_emits body steps h
  exact ⟨prog, hemits, fun State Value I σ => hmirrors.exec_eq I σ⟩

/-- **Statement lowering preserves meaning.**  If the statements of a process are written, begun at
any level of indentation, then the text that is added can be read back as host code, and under every
interpretation of the texts of host expressions, from every state, that code performs exactly the
writes and invalidations of the statements, in order. -/
theorem block_text_executes (s : Site) (body : List Stmt) (session : Session)
    (h : (session.run (s.block body)).result = .ok ()) :
    ∃ text prog, (session.run (s.block body)).session.text = session.text ++ text ∧
      HostStmt.read text.toList = some prog ∧
      ∀ (State Value : Type) (I : Interpretation State Value) (σ : State),
        HostStmt.execAll I prog σ = s.runAll I body σ := by
  obtain ⟨houtcome, htext⟩ := Session.run_ok h
  obtain ⟨prog, hemits, hmeans⟩ := Site.block_implements body (Script.yields_of_outcome houtcome)
  refine ⟨_, prog, htext, ?_, hmeans⟩
  rw [String.toList_ofList]
  exact hemits.read _

/-- A case statement in the else body of an if statement, begun two levels in. -/
theorem block_text_executes_nested :
    let s : Site :=
      ⟨⟨⟨["en", "y", "z"]⟩, "m"⟩, ⟨[(⟨0⟩, .proxy), (⟨1⟩, .proxy), (⟨2⟩, .proxy)]⟩, .process,
        "process `p`"⟩
    let body : List Stmt :=
      [.ifElse [⟨.name ⟨0⟩, [.assign (.name ⟨1⟩) (.literal (.bool true))]⟩]
        (some [.case (.name ⟨1⟩)
          [⟨[.literal (.int 1), .literal (.int 2)],
            [.assign (.index (.name ⟨2⟩) (.literal (.int 0))) (.name ⟨0⟩)]⟩] (some [.null])])]
    let session : Session := ⟨⟨⟨"", none⟩, 2⟩, 0, false⟩
    (session.run (s.block body)).result = .ok () ∧
      ∃ text prog, (session.run (s.block body)).session.text = session.text ++ text ∧
        HostStmt.read text.toList = some prog ∧
        ∀ (State Value : Type) (I : Interpretation State Value) (σ : State),
          HostStmt.execAll I prog σ = s.runAll I body σ := by
  intro s body session
  have houtcome : (s.block body).outcome = .ok () := by
    simp [s, body, Site.block, Site.stmt, Site.branches, Site.optionBlock, Site.falseArm,
      Site.arms, Site.defaultArm, Site.warnRepeated_outcome]
    rfl
  have hresult : (session.run (s.block body)).result = .ok () := by
    rw [Session.run_unlimited rfl, houtcome]
  exact ⟨hresult, block_text_executes s body session hresult⟩

end HdlSim
