import HdlSim.Proofs.Emission
import HdlSim.Proofs.Identifiers

/-!
# The variable of a selection

What is written for a case statement binds its selector to a variable, whose name is fixed, and
tests this variable against the choices.  Everything behind the binding stands in the scope of the
variable: the choices, the bodies of the arms and the default, with the selectors of the case
statements in them.

Main statement: the identifiers that stand there are those of what the case statements mention
there, so one of them is taken for the variable if and only if something outside of the module has
its name (`block_hygienic_iff`).
-/

namespace HdlSim

open HostExpr

/-! ### Identifiers in the scope of the variable -/

mutual

/-- The identifiers of a host statement that stand in the scope of the variable of a selection,
given whether the statement itself does.  A selector does not stand in the scope of its own
variable. -/
def HostStmt.underSelector (bound : Bool) : HostStmt → List HostName
  | .write p v => if bound then p.identifiers ++ v.identifiers else []
  | .writeAt p i v => if bound then p.identifiers ++ i.identifiers ++ v.identifiers else []
  | .writeSlice p h l v =>
    if bound then p.identifiers ++ h.identifiers ++ l.identifiers ++ v.identifiers else []
  | .writeInvalid p => if bound then p.identifiers else []
  | .matchCond c onTrue onFalse onInvalid =>
    (if bound then c.identifiers else []) ++ HostStmt.underSelectorAll bound onTrue ++
      HostStmt.underSelectorAll bound onFalse ++ HostStmt.underSelectorAll bound onInvalid
  | .select selector onInvalid arms otherwise =>
    (if bound then selector.identifiers else []) ++ HostStmt.underSelectorAll true onInvalid ++
      HostStmt.underSelectorArms arms ++ HostStmt.underSelectorOption true otherwise

/-- The same of statements in order. -/
def HostStmt.underSelectorAll (bound : Bool) : List HostStmt → List HostName
  | [] => []
  | first :: rest => first.underSelector bound ++ HostStmt.underSelectorAll bound rest

/-- The same of the arms of a selection. -/
def HostStmt.underSelectorArms : List HostArm → List HostName
  | [] => []
  | ⟨choices, body⟩ :: rest =>
    identifiersOf choices ++ HostStmt.underSelectorAll true body ++ HostStmt.underSelectorArms rest

/-- The same of a body that may be absent. -/
def HostStmt.underSelectorOption (bound : Bool) : Option (List HostStmt) → List HostName
  | none => []
  | some body => HostStmt.underSelectorAll bound body

end

/-- No identifier is taken for the variable of a selection. -/
def HostStmt.Hygienic (prog : List HostStmt) : Prop :=
  .plain "sel" ∉ HostStmt.underSelectorAll false prog

mutual

/-- What a statement mentions inside of case statements, given whether the statement itself is
inside of one. -/
def Stmt.underCase (scope : Scope) (bound : Bool) : Stmt → List Mention
  | .assign target value => if bound then target.mentions scope ++ value.mentions scope else []
  | .ifElse branches elseBody =>
    Stmt.underCaseBranches scope bound branches ++ Stmt.underCaseOption scope bound elseBody
  | .case selector arms default =>
    (if bound then selector.mentions scope else []) ++ Stmt.underCaseArms scope arms ++
      Stmt.underCaseOption scope true default
  | .block body => Stmt.underCaseAll scope bound body
  | .null => []

/-- The same of statements in order. -/
def Stmt.underCaseAll (scope : Scope) (bound : Bool) : List Stmt → List Mention
  | [] => []
  | first :: rest => first.underCase scope bound ++ Stmt.underCaseAll scope bound rest

/-- The same of a body that may be absent. -/
def Stmt.underCaseOption (scope : Scope) (bound : Bool) : Option (List Stmt) → List Mention
  | none => []
  | some body => Stmt.underCaseAll scope bound body

/-- The same of the branches of an if statement. -/
def Stmt.underCaseBranches (scope : Scope) (bound : Bool) : List IfBranch → List Mention
  | [] => []
  | ⟨condition, body⟩ :: rest =>
    (if bound then condition.mentions scope else []) ++ Stmt.underCaseAll scope bound body ++
      Stmt.underCaseBranches scope bound rest

/-- The same of the arms of a case statement. -/
def Stmt.underCaseArms (scope : Scope) : List CaseArm → List Mention
  | [] => []
  | ⟨choices, body⟩ :: rest =>
    Expr.mentionsOf scope choices ++ Stmt.underCaseAll scope true body ++
      Stmt.underCaseArms scope rest

end

/-- What two programs in a row mention in the scope of the variable. -/
theorem HostStmt.underSelectorAll_append (bound : Bool) (p q : List HostStmt) :
    HostStmt.underSelectorAll bound (p ++ q) =
      HostStmt.underSelectorAll bound p ++ HostStmt.underSelectorAll bound q := by
  induction p with
  | nil => rfl
  | cons st p ih =>
      rw [List.cons_append, HostStmt.underSelectorAll, ih, HostStmt.underSelectorAll,
        List.append_assoc]

/-- What a program of one statement mentions there. -/
theorem HostStmt.underSelectorAll_singleton (bound : Bool) (st : HostStmt) :
    HostStmt.underSelectorAll bound [st] = st.underSelector bound := by
  simp [HostStmt.underSelectorAll]

/-- What a program that may be missing mentions there. -/
private theorem HostStmt.underSelectorAll_getD (bound : Bool) (body : Option (List HostStmt)) :
    HostStmt.underSelectorAll bound (body.getD []) = HostStmt.underSelectorOption bound body := by
  cases body <;> rfl

/-! ### From statements to identifiers -/

section

variable {s : Site}

/-- Mentions that count or do not count together. -/
theorem Site.filterMap_if (bound : Bool) (ms : List Mention) :
    (if bound then ms else []).filterMap s.identifier? =
      if bound then ms.filterMap s.identifier? else [] := by
  cases bound <;> rfl

/-- The identifiers in the value of an expression. -/
theorem Site.value_identifiers {e : Expr} {v : HostExpr} (h : s.value e = .ok v) :
    v.identifiers = (e.mentions s.scope).filterMap s.identifier? :=
  (value_mirrors h).identifiers_eq

/-- The identifiers in the values of some expressions. -/
private theorem Site.values_identifiers {es : List Expr} {vs : List HostExpr}
    (h : s.values es = .ok vs) :
    identifiersOf vs = (Expr.mentionsOf s.scope es).filterMap s.identifier? :=
  (values_mirror h).identifiers_eq

/-- Signals are members of the model, except in the constructor. -/
theorem Site.proxyOf_identifiers (hplace : s.place = .process) {n : Ident} {p : HostExpr}
    (h : s.proxyOf n = .ok p) : p.identifiers = [] := by
  rw [(proxyOf_eq_ok_iff.mp h).2.identifiers_eq]
  simp [identifier?, hplace]

/-- Inside of a process, a signal is reached without an identifier of its own. -/
theorem Site.mention_identifiers (hplace : s.place = .process) {n : Ident} {p : HostExpr}
    (h : s.proxyOf n = .ok p) : (s.scope.mention n).filterMap s.identifier? = [] := by
  have hkind := (proxyOf_eq_ok_iff.mp h).1
  simp [Scope.mention, hkind, identifier?, hplace]

/-- To invalidate signals mentions nothing. -/
theorem Invalidates.underSelector_eq (hplace : s.place = .process) {ns : List Ident}
    {prog : List HostStmt} (h : Invalidates s ns prog) (bound : Bool) :
    HostStmt.underSelectorAll bound prog = [] := by
  induction h with
  | nil => rfl
  | cons hp hrest ih =>
      rw [HostStmt.underSelectorAll, ih, HostStmt.underSelector, Site.proxyOf_identifiers hplace hp]
      simp

mutual

/-- **The identifiers in the scope of the variable** are those of what is mentioned inside of case
statements. -/
theorem StmtMirrors.underSelector_eq (hplace : s.place = .process) :
    ∀ {st : Stmt} {prog : List HostStmt}, StmtMirrors s st prog → ∀ bound,
      HostStmt.underSelectorAll bound prog =
        (st.underCase s.scope bound).filterMap s.identifier?
  | _, _, .write hp hv, bound => by
      simp [HostStmt.underSelectorAll, HostStmt.underSelector, Stmt.underCase, Expr.mentions,
        Site.proxyOf_identifiers hplace hp, Site.mention_identifiers hplace hp,
        Site.value_identifiers hv, Site.filterMap_if]
  | _, _, .writeAt hp hi hv, bound => by
      simp [HostStmt.underSelectorAll, HostStmt.underSelector, Stmt.underCase, Expr.mentions,
        Site.proxyOf_identifiers hplace hp, Site.mention_identifiers hplace hp,
        Site.value_identifiers hi, Site.value_identifiers hv, Site.filterMap_if]
  | _, _, .writeSlice hp hh hl hv, bound => by
      simp [HostStmt.underSelectorAll, HostStmt.underSelector, Stmt.underCase, Expr.mentions,
        Site.proxyOf_identifiers hplace hp, Site.mention_identifiers hplace hp,
        Site.value_identifiers hh, Site.value_identifiers hl, Site.value_identifiers hv,
        Site.filterMap_if]
  | _, _, .ifElse hbranches, bound => by
      rw [HostStmt.underSelectorAll_singleton, hbranches.underSelector_eq hplace bound,
        Stmt.underCase]
  | _, _, .case hsel hinvalid harms hdefault, bound => by
      have hselector := Site.value_identifiers hsel
      have hinvalidates := hinvalid.underSelector_eq hplace true
      have htried := harms.underSelector_eq hplace
      have hotherwise := hdefault.underSelector_eq hplace true
      simp [HostStmt.underSelectorAll_singleton, HostStmt.underSelector, Stmt.underCase, hselector,
        hinvalidates, htried, hotherwise, Site.filterMap_if]
  | _, _, .block hbody, bound => by
      rw [hbody.underSelector_eq hplace bound, Stmt.underCase]
  | _, _, .null, bound => rfl

/-- A program mentions in the scope of the variable what the body does inside of case statements. -/
theorem BlockMirrors.underSelector_eq (hplace : s.place = .process) :
    ∀ {body : List Stmt} {prog : List HostStmt}, BlockMirrors s body prog → ∀ bound,
      HostStmt.underSelectorAll bound prog =
        (Stmt.underCaseAll s.scope bound body).filterMap s.identifier?
  | _, _, .nil, bound => rfl
  | _, _, .cons hfirst hrest, bound => by
      rw [HostStmt.underSelectorAll_append, hfirst.underSelector_eq hplace bound,
        hrest.underSelector_eq hplace bound, Stmt.underCaseAll, List.filterMap_append]

/-- A body that may be missing: the program for it mentions what the body does. -/
theorem OptionMirrors.underSelector_eq (hplace : s.place = .process) :
    ∀ {body : Option (List Stmt)} {prog : Option (List HostStmt)}, OptionMirrors s body prog →
      ∀ bound, HostStmt.underSelectorOption bound prog =
        (Stmt.underCaseOption s.scope bound body).filterMap s.identifier?
  | _, _, .none, _ => rfl
  | _, _, .some hbody, bound => hbody.underSelector_eq hplace bound

/-- A match mentions in the scope of the variable what the branches do inside of case statements. -/
theorem BranchesMirror.underSelector_eq (hplace : s.place = .process) :
    ∀ {elseBody : Option (List Stmt)} {branches : List IfBranch} {st : HostStmt},
      BranchesMirror s elseBody branches st → ∀ bound,
      st.underSelector bound =
        (Stmt.underCaseBranches s.scope bound branches ++
          Stmt.underCaseOption s.scope bound elseBody).filterMap s.identifier?
  | _, _, _, .last hc hbody helse hinvalid, bound => by
      have hcondition := Site.value_identifiers hc
      have htrue := hbody.underSelector_eq hplace bound
      have hfalse := helse.underSelector_eq hplace bound
      have hinvalidates := hinvalid.underSelector_eq hplace bound
      simp [HostStmt.underSelector, HostStmt.underSelectorAll_getD, Stmt.underCaseBranches,
        hcondition, htrue, hfalse, hinvalidates, Site.filterMap_if]
  | _, _, _, .more hc hbody hrest hinvalid, bound => by
      have hcondition := Site.value_identifiers hc
      have htrue := hbody.underSelector_eq hplace bound
      have hfalse := hrest.underSelector_eq hplace bound
      have hinvalidates := hinvalid.underSelector_eq hplace bound
      simp [HostStmt.underSelector, HostStmt.underSelectorAll_singleton, Stmt.underCaseBranches,
        hcondition, htrue, hfalse, hinvalidates, Site.filterMap_if]

/-- Tests and bodies of arms mention what the arms do, all of it inside of a case statement. -/
theorem ArmsMirror.underSelector_eq (hplace : s.place = .process) :
    ∀ {arms : List CaseArm} {hostArms : List HostArm}, ArmsMirror s arms hostArms →
      HostStmt.underSelectorArms hostArms =
        (Stmt.underCaseArms s.scope arms).filterMap s.identifier?
  | _, _, .nil => rfl
  | _, _, .cons hvalues hbody hrest => by
      rw [HostStmt.underSelectorArms, Site.values_identifiers hvalues,
        hbody.underSelector_eq hplace true, hrest.underSelector_eq hplace, Stmt.underCaseArms,
        List.filterMap_append, List.filterMap_append]

end

end

/-! ### Names that are taken for the variable -/

/-- Only a text without other characters becomes a word without underscores. -/
theorem HostName.eq_of_wordChars {cs ds : List Char} (h : wordChars cs = ds) (hds : '_' ∉ ds) :
    cs = ds := by
  have hmap : (cs.map fun c => if isWordChar c then c else '_') = ds := by
    unfold wordChars at h
    dsimp only at h
    split at h
    · subst h
      exact absurd List.mem_cons_self hds
    · split at h
      · subst h
        exact absurd List.mem_cons_self hds
      · exact h
  have hsame : ∀ c ∈ cs, (if isWordChar c then c else '_') = c := by
    intro c hc
    have hmem : (if isWordChar c then c else '_') ∈ ds := by
      rw [← hmap]
      exact List.mem_map.mpr ⟨c, hc, rfl⟩
    by_cases hword : isWordChar c = true
    · rw [if_pos hword]
    · rw [if_neg hword] at hmem
      exact absurd hmem hds
  rw [← hmap, List.map_congr_left hsame, List.map_id']

/-- Only one name is taken for the variable. -/
private theorem HostName.escape_eq_sel_iff {name : String} :
    escape name = .plain "sel" ↔ name = "sel" := by
  constructor
  · intro h
    unfold escape at h
    dsimp only at h
    split at h
    · have hword := congrArg (fun n => n.word.toList) h
      have hend : '_' ∈ "sel".toList := by
        rw [show "sel".toList = _ from hword.symm]
        simp
      exact absurd hend (by decide)
    · split at h
      · exact absurd (congrArg HostName.raw h) (by simp [plain])
      · have hword := congrArg (fun n => n.word.toList) h
        have hchars : wordChars name.toList = "sel".toList := by simpa [plain] using hword
        exact String.toList_inj.mp (eq_of_wordChars hchars (by decide))
  · rintro rfl
    decide

/-- The text that is written for the statements of a process, with the identifiers in the scope of
the variable. -/
theorem Site.block_identifiers {s : Site} (hplace : s.place = .process) {body : List Stmt}
    {session : Session} (h : (session.run (s.block body)).result = .ok ()) :
    ∃ text prog, (session.run (s.block body)).session.text = session.text ++ text ∧
      HostStmt.read text.toList = some prog ∧
      HostStmt.underSelectorAll false prog =
        (Stmt.underCaseAll s.scope false body).filterMap s.identifier? := by
  obtain ⟨houtcome, htext⟩ := Session.run_ok h
  obtain ⟨prog, hemits, hmirrors⟩ := block_emits body _ (Script.yields_of_outcome houtcome)
  refine ⟨_, prog, htext, ?_, hmirrors.underSelector_eq hplace false⟩
  rw [String.toList_ofList]
  exact hemits.read _

/-- Only something outside of the module can be taken for the variable. -/
theorem Site.identifier?_eq_sel_iff {s : Site} (hplace : s.place = .process) {mention : Mention} :
    s.identifier? mention = some (.plain "sel") ↔
      ∃ n, mention = .outer n ∧ s.context.names.textOf n = "sel" := by
  cases mention with
  | own n => simp [identifier?, hplace]
  | outer n => simp [identifier?, NameTable.hostOf, HostName.escape_eq_sel_iff]
  | runtime maker =>
      have hmaker : maker.text ≠ "sel" := by cases maker <;> decide
      simp [identifier?, HostName.plain, hmaker]

/-- **Hygiene of case statements.**  If the statements of a process are written, begun at any level
of indentation, the text that is added is read back as a host program, and the identifiers in it
that stand in the scope of the variable of a selection are those of what the statements mention
inside of case statements.  None of them is taken for the variable if and only if no name, function
or type from outside of the module that is mentioned there is called `sel`. -/
theorem block_hygienic_iff (s : Site) (hplace : s.place = .process) (body : List Stmt)
    (session : Session) (h : (session.run (s.block body)).result = .ok ()) :
    ∃ text prog, (session.run (s.block body)).session.text = session.text ++ text ∧
      HostStmt.read text.toList = some prog ∧
      HostStmt.underSelectorAll false prog =
        (Stmt.underCaseAll s.scope false body).filterMap s.identifier? ∧
      (HostStmt.Hygienic prog ↔ ∀ n, .outer n ∈ Stmt.underCaseAll s.scope false body →
        s.context.names.textOf n ≠ "sel") := by
  obtain ⟨text, prog, htext, hread, hidentifiers⟩ := Site.block_identifiers hplace h
  refine ⟨text, prog, htext, hread, hidentifiers, ?_⟩
  rw [HostStmt.Hygienic, hidentifiers, List.mem_filterMap]
  constructor
  · intro hclean n hn hsel
    exact hclean ⟨.outer n, hn, (Site.identifier?_eq_sel_iff hplace).mpr ⟨n, rfl, hsel⟩⟩
  · intro hclean hmem
    obtain ⟨mention, hmention, hsel⟩ := hmem
    obtain ⟨n, rfl, htextOf⟩ := (Site.identifier?_eq_sel_iff hplace).mp hsel
    exact hclean n hmention htextOf

/-- The outermost selector is called `sel`, which does no harm; inside there are a guard, an index
and another selector from outside of the module. -/
theorem block_hygienic_iff_nested :
    let s : Site :=
      ⟨⟨⟨["sel", "y", "f", "i", "mode"]⟩, "m"⟩, ⟨[(⟨1⟩, .proxy)]⟩, .process, "process `p`"⟩
    let body : List Stmt :=
      [.case (.name ⟨0⟩)
        [⟨[.literal (.int 1)],
          [.ifElse [⟨.call ⟨2⟩ [.name ⟨1⟩],
              [.assign (.index (.name ⟨1⟩) (.name ⟨3⟩)) (.literal (.bool true))]⟩]
            (some [.case (.name ⟨4⟩) [] (some [.null])])]⟩] none]
    let session : Session := ⟨⟨⟨"", none⟩, 2⟩, 0, false⟩
    s.place = .process ∧ (session.run (s.block body)).result = .ok () ∧
      ∃ text prog, (session.run (s.block body)).session.text = session.text ++ text ∧
        HostStmt.read text.toList = some prog ∧
        HostStmt.underSelectorAll false prog =
          (Stmt.underCaseAll s.scope false body).filterMap s.identifier? ∧
        (HostStmt.Hygienic prog ↔ ∀ n, .outer n ∈ Stmt.underCaseAll s.scope false body →
          s.context.names.textOf n ≠ "sel") := by
  intro s body session
  have houtcome : (s.block body).outcome = .ok () := by
    simp [s, body, Site.block, Site.stmt, Site.branches, Site.optionBlock, Site.falseArm,
      Site.arms, Site.defaultArm, Site.warnRepeated_outcome]
    rfl
  have hresult : (session.run (s.block body)).result = .ok () := by
    rw [Session.run_unlimited rfl, houtcome]
  exact ⟨rfl, hresult, block_hygienic_iff s rfl body session hresult⟩

/-- An arm assigns a constant of the runtime that is called `sel`: the variable is assigned. -/
theorem block_assigns_variable_of_selection :
    let names : NameTable := ⟨["top", "y", "sel", "p"]⟩
    let body : List Stmt :=
      [.case (.name ⟨1⟩) [⟨[.literal (.int 1)], [.assign (.name ⟨1⟩) (.name ⟨2⟩)]⟩] none]
    let m : Module :=
      { Module.empty ⟨0⟩ with
        ports := [.port ⟨1⟩ .inOut (.bits 8 false)]
        items := [.process ((ProcessDecl.ofBody ⟨3⟩ [.name ⟨1⟩] body).withOutputs [⟨1⟩])] }
    let s : Site := (m.model names "top").site .process "process `p`"
    let session : Session := .start none
    Succeeds (Scope.build ⟨names, "top"⟩ m.ports (Body.ofItems m.items)) ∧
      (session.run (s.block body)).result = .ok () ∧
      ∃ text prog, (session.run (s.block body)).session.text = session.text ++ text ∧
        HostStmt.read text.toList = some prog ∧ ¬ HostStmt.Hygienic prog := by
  intro names body m s session
  have houtcome : (s.block body).outcome = .ok () := rfl
  have hresult : (session.run (s.block body)).result = .ok () := by
    rw [Session.run_unlimited rfl, houtcome]
  have hmention : .outer ⟨2⟩ ∈ Stmt.underCaseAll s.scope false body := by decide
  have hsel : s.identifier? (.outer ⟨2⟩) = some (.plain "sel") := by decide
  obtain ⟨text, prog, htext, hread, hidentifiers⟩ := Site.block_identifiers rfl hresult
  refine ⟨⟨_, rfl⟩, hresult, text, prog, htext, hread, ?_⟩
  intro hclean
  apply hclean
  rw [hidentifiers]
  exact List.mem_filterMap.mpr ⟨_, hmention, hsel⟩

end HdlSim
