import HdlSim.Proofs.Strings

/-!
# The strings of a module

Text of the design reaches the code of a model inside string literals: what a literal of the design
holds, the names of enumerations and of their members, of signals and of instances, and the labels
of processes.  `Module.strings` collects these texts from the module alone, in the order in which
they are written, and every script of the model says exactly its share of them
(`Model.says_strings_code`).

Main statement: every quoted string denotes the text that it was written for
(`strings_denote_texts`).
-/

namespace HdlSim

open Text Script HostExpr

/-! ### Strings of a design -/

/-- The string in a literal; the digits of a bit string are written in lower case. -/
def Literal.strings : Literal → List String
  | .str text => [text]
  | .bits _ digits => [String.ofList (digits.toList.map Char.toLower)]
  | .int _ | .bool _ => []

section

variable (names : NameTable) (scope : Scope)

/-- A member of an enumeration is written as a string; any other name is not. -/
def Scope.memberStrings (n : Ident) : List String :=
  match scope.get? n with
  | some (.enumMember _) => [names.textOf n]
  | _ => []

mutual

/-- The strings in an expression, in the order of the source. -/
def Expr.strings : Expr → List String
  | .name n => scope.memberStrings names n
  | .literal v => v.strings
  | .unary _ a => a.strings
  | .binary _ a b => a.strings ++ b.strings
  | .ternary c a b => c.strings ++ a.strings ++ b.strings
  | .index a i => a.strings ++ i.strings
  | .slice a h l => a.strings ++ h.strings ++ l.strings
  | .concat parts => Expr.stringsOf parts
  | .cast a t => a.strings ++ t.strings
  | .call _ args => Expr.stringsOf args
  | .edge _ a => a.strings
  | .type t => t.strings

/-- The strings in some expressions. -/
def Expr.stringsOf : List Expr → List String
  | [] => []
  | e :: es => e.strings ++ Expr.stringsOf es

/-- The strings in a type. -/
def Ty.strings : Ty → List String
  | .array element size => element.strings ++ size.strings
  | .bits _ _ | .named _ | .enum _ | .typeOfTypes => []

end

mutual

/-- The strings in a statement, in the order of the source. -/
def Stmt.strings : Stmt → List String
  | .assign target value => target.strings names scope ++ value.strings names scope
  | .ifElse branches elseBody => IfBranch.stringsOf branches ++ Stmt.stringsOption elseBody
  | .case selector arms default =>
    selector.strings names scope ++ CaseArm.stringsOf arms ++ Stmt.stringsOption default
  | .block body => Stmt.stringsOf body
  | .null => []

/-- The strings in some statements. -/
def Stmt.stringsOf : List Stmt → List String
  | [] => []
  | first :: rest => first.strings ++ Stmt.stringsOf rest

/-- The strings in a body that may be absent. -/
def Stmt.stringsOption : Option (List Stmt) → List String
  | none => []
  | some body => Stmt.stringsOf body

/-- The strings in the branches of an if statement. -/
def IfBranch.stringsOf : List IfBranch → List String
  | [] => []
  | ⟨condition, body⟩ :: rest =>
    condition.strings names scope ++ Stmt.stringsOf body ++ IfBranch.stringsOf rest

/-- The strings in the arms of a case statement. -/
def CaseArm.stringsOf : List CaseArm → List String
  | [] => []
  | ⟨choices, body⟩ :: rest =>
    Expr.stringsOf names scope choices ++ Stmt.stringsOf body ++ CaseArm.stringsOf rest

end

/-- The strings in the declaration of a type: an enumeration is defined by its name and those of its
members. -/
def TypeItem.strings : TypeItem → List String
  | .enum d => names.textOf d.name :: d.members.map fun m => names.textOf m.name
  | .array d => d.element.strings names scope ++ d.size.strings names scope
  | .synonym d =>
    match d.value with
    | some (.type (.enum members)) =>
      names.textOf d.name :: members.map fun m => names.textOf m.name
    | some (.type type) => type.strings names scope
    | _ => []

/-- The strings in a declaration of data: a proxy has the name of its signal. -/
def Variable.strings (d : Variable) : List String :=
  let value := d.value.elim [] (Expr.strings names scope)
  if d.isConst then value else names.textOf d.name :: (d.type.strings names scope ++ value)

end

/-- **The strings of a module**, in the order of its model: those of types, ports and variables, the
names of instances, the labels of processes, first all of them and then each with what it watches
and with what it drives, the message about an unknown process, and the strings in the processes. -/
def Module.strings (names : NameTable) (m : Module) : List String :=
  (m.items.filterMap Item.typeItem?).flatMap (TypeItem.strings names m.scope) ++
    m.declarations.flatMap (Variable.strings names m.scope) ++
    (m.instances.map fun i => names.textOf i.name) ++
    (m.processes.map fun p => names.textOf p.label) ++
    (m.processes.flatMap fun p => [names.textOf p.label, names.textOf p.label]) ++
    [(names.hostOf m.name).text ++ " has no process \x7bindex\x7d"] ++
    m.processes.flatMap fun p => Stmt.stringsOf names m.scope p.body

/-! ### Strings in values -/

section

variable {s : Site}

/-- A proxy has no strings. -/
theorem Site.ProxyReference.strings_eq {n : Ident} {t : HostExpr}
    (h : s.ProxyReference n t) :
    t.strings = [] := by
  cases h <;> rfl

/-- The text of a name that has one. -/
theorem NameTable.textOf_eq {names : NameTable} {n : Ident} {text : String}
    (h : names.resolve? n = some text) : names.textOf n = text := by
  rw [NameTable.textOf, h, Option.getD_some]

/-- A name has no strings, unless it is a member of an enumeration. -/
theorem Site.NameReference.strings_eq {n : Ident} {t : HostExpr} (h : s.NameReference n t) :
    t.strings = s.scope.memberStrings s.context.names n := by
  cases h with
  | signal hkind hproxy =>
      simp [HostExpr.strings, HostExpr.stringsOf, Scope.memberStrings, hkind, hproxy.strings_eq]
  | member hkind hname htype =>
      simp [HostExpr.strings, HostExpr.stringsOf, Scope.memberStrings, hkind,
        NameTable.textOf_eq hname]
  | constantInConstructor hkind | constantInProcess hkind | type hkind | free hkind =>
      simp [HostExpr.strings, HostExpr.stringsOf, Scope.memberStrings, hkind]

/-- The strings in a literal. -/
theorem LiteralMirrors.strings_eq {v : Literal} {t : HostExpr} (h : LiteralMirrors v t) :
    t.strings = v.strings := by
  cases h <;> rfl

/-- An operator in front brings no strings. -/
theorem UnaryOp.node_strings (op : UnaryOp) (a : HostExpr) :
    (op.node a).strings = a.strings := by
  unfold UnaryOp.node
  split <;> simp [HostExpr.strings, HostExpr.stringsOf]

/-- An operator between two brings no strings. -/
theorem BinaryOp.node_strings (op : BinaryOp) (l r : HostExpr) :
    (op.node l r).strings = l.strings ++ r.strings := by
  unfold BinaryOp.node
  split <;> simp [HostExpr.strings, HostExpr.stringsOf]

/-- The strings in a concatenation. -/
theorem HostExpr.strings_concat (front : HostExpr) (parts : List HostExpr) :
    (parts.foldl (fun front part => .method front "concat" [part]) front).strings =
      front.strings ++ stringsOf parts := by
  induction parts generalizing front with
  | nil => simp [stringsOf]
  | cons part parts ih =>
      rw [List.foldl_cons, ih]
      simp [strings, stringsOf]

mutual

/-- **The strings in a value** are those of its expression. -/
theorem Mirrors.strings_eq : ∀ {e : Expr} {t : HostExpr}, Mirrors s e t →
    t.strings = e.strings s.context.names s.scope
  | _, _, .name hn => hn.strings_eq
  | _, _, .literal hv => hv.strings_eq
  | _, _, .unary op ha => by rw [op.node_strings, ha.strings_eq, Expr.strings]
  | _, _, .binary op ha hb => by
      rw [op.node_strings, ha.strings_eq, hb.strings_eq, Expr.strings]
  | _, _, .ternary hc ha hb => by
      simp [HostExpr.strings, HostExpr.stringsOf, Expr.strings, hc.strings_eq, ha.strings_eq,
        hb.strings_eq]
  | _, _, .index ha hi => by
      simp [HostExpr.strings, HostExpr.stringsOf, Expr.strings, ha.strings_eq, hi.strings_eq]
  | _, _, .slice ha hh hl => by
      simp [HostExpr.strings, HostExpr.stringsOf, Expr.strings, ha.strings_eq, hh.strings_eq,
        hl.strings_eq]
  | _, _, .concat ha has => by
      rw [strings_concat, ha.strings_eq, has.strings_eq, Expr.strings, Expr.stringsOf]
  | _, _, .cast ha htype => by
      simp [HostExpr.strings, HostExpr.stringsOf, Expr.strings, ha.strings_eq, htype.strings_eq]
  | _, _, .call hf has => by rw [HostExpr.strings, has.strings_eq, Expr.strings]
  | _, _, .edge edge hkind hn => by
      simp [HostExpr.strings, HostExpr.stringsOf, Expr.strings, Scope.memberStrings, hkind,
        hn.strings_eq]
  | _, _, .type htype => htype.strings_eq

/-- The strings in values are those of the expressions. -/
theorem MirrorsAll.strings_eq : ∀ {es : List Expr} {ts : List HostExpr}, MirrorsAll s es ts →
    HostExpr.stringsOf ts = Expr.stringsOf s.context.names s.scope es
  | _, _, .nil => rfl
  | _, _, .cons ha has => by
      rw [HostExpr.stringsOf, ha.strings_eq, has.strings_eq, Expr.stringsOf]

/-- The strings in the value of a type are those of the type. -/
theorem TypeMirrors.strings_eq : ∀ {type : Ty} {t : HostExpr}, TypeMirrors s type t →
    t.strings = type.strings s.context.names s.scope
  | _, _, .bits width signed => rfl
  | _, _, .array helement hsize => by
      simp [HostExpr.strings, HostExpr.stringsOf, Ty.strings, helement.strings_eq,
        hsize.strings_eq]
  | _, _, .own hkind hn => rfl
  | _, _, .foreign hkind hn => rfl

end

end

namespace Site

variable {s : Site}

/-- The strings in the value of an expression. -/
theorem value_strings {e : Expr} {v : HostExpr} (h : s.value e = .ok v) :
    v.strings = e.strings s.context.names s.scope :=
  (value_mirrors h).strings_eq

private theorem values_strings {es : List Expr} {vs : List HostExpr} (h : s.values es = .ok vs) :
    HostExpr.stringsOf vs = Expr.stringsOf s.context.names s.scope es :=
  (values_mirror h).strings_eq

/-- The strings in the value of a type. -/
theorem typeValue_strings {type : Ty} {v : HostExpr} (h : s.typeValue type = .ok v) :
    v.strings = type.strings s.context.names s.scope :=
  (typeValue_mirrors h).strings_eq

private theorem initValue_strings {e : Option Expr} {init : Option HostExpr}
    (h : s.initValue e = .ok init) :
    init.elim [] HostExpr.strings = e.elim [] (Expr.strings s.context.names s.scope) := by
  cases e with
  | none =>
      obtain rfl := Except.pure_eq_ok_iff.mp h
      rfl
  | some x =>
      obtain ⟨value, hvalue, h⟩ := Except.bind_eq_ok_iff.mp h
      obtain rfl := Except.pure_eq_ok_iff.mp h
      exact value_strings hvalue

/-- A proxy has no strings. -/
theorem proxyOf_strings {n : Ident} {p : HostExpr} (h : s.proxyOf n = .ok p) :
    p.strings = [] :=
  (proxyOf_eq_ok_iff.mp h).2.strings_eq

/-- A signal is no member of an enumeration. -/
theorem memberStrings_eq_nil {n : Ident} {p : HostExpr} (h : s.proxyOf n = .ok p) :
    s.scope.memberStrings s.context.names n = [] := by
  rw [Scope.memberStrings, (proxyOf_eq_ok_iff.mp h).1]

/-- The texts of the members of an enumeration. -/
private theorem memberNames_eq {members : List EnumMember} {labels : List String}
    (h : s.memberNames members = .ok labels) :
    labels = members.map fun m => s.context.names.textOf m.name := by
  induction members generalizing labels with
  | nil => exact (Except.pure_eq_ok_iff.mp h).symm
  | cons member members ih =>
      obtain ⟨n, value⟩ := member
      cases value with
      | some value => simp [memberNames] at h
      | none =>
          obtain ⟨name, hname, h⟩ := Except.bind_eq_ok_iff.mp h
          obtain ⟨names, hnames, h⟩ := Except.bind_eq_ok_iff.mp h
          rw [← Except.pure_eq_ok_iff.mp h, Context.name_ok hname, ih hnames, List.map_cons]

/-- The strings in the value of an enumeration. -/
theorem enumValue_strings {name : String} {members : List EnumMember} {v : HostExpr}
    (h : s.enumValue name members = .ok v) :
    v.strings = name :: members.map fun m => s.context.names.textOf m.name := by
  obtain ⟨labels, hlabels, rfl⟩ := enumValue_eq_ok h
  simp [HostExpr.runtime, HostExpr.strings, HostExpr.stringsOf, memberNames_eq hlabels]

/-- The strings in the value of a type that is declared. -/
private theorem typeItemValue_strings {t : TypeItem} {v : HostExpr}
    (h : s.typeItemValue t = .ok v) :
    v.strings = t.strings s.context.names s.scope := by
  obtain ⟨name, hname, hvalue⟩ := Except.bind_eq_ok_iff.mp h
  obtain rfl := Context.name_ok hname
  cases t with
  | enum d => exact enumValue_strings hvalue
  | array d => exact typeValue_strings hvalue
  | synonym d =>
      obtain ⟨_, _, _, value, _, _⟩ := d
      dsimp only at hvalue
      split at hvalue
      · exact enumValue_strings hvalue
      · simp at hvalue
      · rename_i type hother _
        rw [typeValue_strings hvalue]
        cases type with
        | enum members => exact absurd rfl (hother members)
        | _ => rfl
      · simp at hvalue

/-! ### Strings in statements -/

/-- If there is a script, this is what it holds, and otherwise it is nothing. -/
def OptionHolds (texts : List String) (script : Option (Script Unit)) : Prop :=
  match script with
  | none => texts = []
  | some script => Says HasStrings texts script

private theorem says_assign (target value : Expr) :
    Says HasStrings
      (target.strings s.context.names s.scope ++ value.strings s.context.names s.scope)
      (s.stmt (.assign target value)) := by
  rw [stmt]
  refine says_lift fun l hl => says_line ?_
  obtain ⟨v, hv, hline⟩ := Except.bind_eq_ok_iff.mp hl
  rw [← value_strings hv]
  -- The target is a signal, so that only its indices can have strings.
  split at hline
  · obtain ⟨p, hp, hline⟩ := Except.bind_eq_ok_iff.mp hline
    obtain rfl := Except.pure_eq_ok_iff.mp hline
    refine hasStrings_line ?_ rfl
    simp [Line.strings, Expr.strings, proxyOf_strings hp, memberStrings_eq_nil hp]
  · obtain ⟨p, hp, hline⟩ := Except.bind_eq_ok_iff.mp hline
    obtain ⟨k, hk, hline⟩ := Except.bind_eq_ok_iff.mp hline
    obtain rfl := Except.pure_eq_ok_iff.mp hline
    refine hasStrings_line ?_ rfl
    simp [Line.strings, Expr.strings, proxyOf_strings hp, memberStrings_eq_nil hp,
      value_strings hk]
  · obtain ⟨p, hp, hline⟩ := Except.bind_eq_ok_iff.mp hline
    obtain ⟨high, hhigh, hline⟩ := Except.bind_eq_ok_iff.mp hline
    obtain ⟨low, hlow, hline⟩ := Except.bind_eq_ok_iff.mp hline
    obtain rfl := Except.pure_eq_ok_iff.mp hline
    refine hasStrings_line ?_ rfl
    simp [Line.strings, Expr.strings, proxyOf_strings hp, memberStrings_eq_nil hp,
      value_strings hhigh, value_strings hlow]
  · simp at hline

/-- To invalidate signals takes no strings. -/
theorem says_invalidate (ns : List Ident) : Says HasStrings [] (s.invalidate ns) :=
  says_forEach_nil piecewise_strings fun _ _ => says_lift fun _ hp =>
    says_line (hasStrings_line (proxyOf_strings hp) rfl)

/-- The arm for a condition without a value has no strings. -/
private theorem says_invalidArm (ns : List Ident) : Says HasStrings [] (s.invalidArm ns) := by
  unfold invalidArm
  split
  · exact says_line (hasStrings_line rfl rfl)
  · exact says_after piecewise_strings (says_enter (hasStrings_line rfl rfl)) fun _ _ =>
      says_after piecewise_strings (says_invalidate ns) fun _ _ =>
      says_leave (hasStrings_line rfl rfl)

/-- The strings in the arm for a condition that does not hold. -/
theorem OptionHolds.falseArm {texts : List String} {script : Option (Script Unit)}
    (h : OptionHolds texts script) :
    Says HasStrings texts (falseArm script) := by
  cases script with
  | none =>
      obtain rfl : texts = [] := h
      exact says_line (hasStrings_line rfl rfl)
  | some script =>
      have hscript : Says HasStrings texts script := h
      exact says_after piecewise_strings (says_enter (hasStrings_line rfl rfl)) fun _ _ =>
        says_before piecewise_strings hscript fun _ _ => says_leave (hasStrings_line rfl rfl)

/-- The strings in the block of the default. -/
theorem OptionHolds.defaultArm {texts : List String} {script : Option (Script Unit)}
    (h : OptionHolds texts script) :
    Says HasStrings texts (defaultArm script) := by
  cases script with
  | none =>
      obtain rfl : texts = [] := h
      exact says_pure piecewise_strings ()
  | some script =>
      have hscript : Says HasStrings texts script := h
      exact says_after piecewise_strings (says_write (hasStrings_line rfl rfl)) fun _ _ => hscript

/-- The strings in the line in front of an arm. -/
private theorem says_armLine {choices : List Expr} {l : Line} (h : s.armLine choices = .ok l) :
    Says HasStrings (Expr.stringsOf s.context.names s.scope choices) (Script.turn l) := by
  cases choices with
  | nil => simp [armLine] at h
  | cons c choices =>
      obtain ⟨vs, hvs, hline⟩ := Except.bind_eq_ok_iff.mp h
      obtain rfl := Except.pure_eq_ok_iff.mp hline
      exact says_write (hasStrings_line (values_strings hvs) rfl)

mutual

/-- **Strings in statements.**  The script for a statement has the strings of the statement. -/
theorem says_stmt (s : Site) : ∀ st : Stmt,
    Says HasStrings (st.strings s.context.names s.scope) (s.stmt st)
  | .assign target value => says_assign target value
  | .ifElse branches elseBody => by
      rw [stmt, Stmt.strings]
      exact s.says_branches (s.holds_optionBlock elseBody) branches
  | .case selector arms default => by
      have hwarnings : Says HasStrings [] (s.warnRepeated arms) :=
        says_forEach_nil piecewise_strings fun _ _ => says_log piecewise_strings _
      have hselector : ∀ v, s.value selector = .ok v → Says HasStrings
          (selector.strings s.context.names s.scope) (Script.line (.letSelector v)) :=
        fun v hv => says_line (hasStrings_line (value_strings hv) rfl)
      rw [stmt, Stmt.strings, List.append_assoc]
      exact says_after piecewise_strings hwarnings fun _ _ =>
        says_after piecewise_strings (says_enter (hasStrings_line rfl rfl)) fun _ _ =>
        says_lift fun v hv => says_bind piecewise_strings (hselector v hv) fun _ _ =>
        says_after piecewise_strings (says_enter (hasStrings_line rfl rfl)) fun _ _ =>
        says_after piecewise_strings (says_invalidate _) fun _ _ =>
        says_bind piecewise_strings (s.says_arms arms) fun _ _ =>
        says_before piecewise_strings (s.holds_optionBlock default).defaultArm fun _ _ =>
        says_after piecewise_strings (says_leave (hasStrings_line rfl rfl)) fun _ _ =>
        says_leave (hasStrings_line rfl rfl)
  | .block body => by
      rw [stmt, Stmt.strings]
      exact s.says_block body
  | .null => by
      rw [stmt, Stmt.strings]
      exact says_pure piecewise_strings ()

/-- The strings in a body. -/
theorem says_block (s : Site) : ∀ body : List Stmt,
    Says HasStrings (Stmt.stringsOf s.context.names s.scope body) (s.block body)
  | [] => by
      rw [block, Stmt.stringsOf]
      exact says_pure piecewise_strings ()
  | first :: rest => by
      rw [block, Stmt.stringsOf]
      exact says_bind piecewise_strings (s.says_stmt first) fun _ _ => s.says_block rest

/-- The strings in a body that may be missing. -/
theorem holds_optionBlock (s : Site) : ∀ body : Option (List Stmt),
    OptionHolds (Stmt.stringsOption s.context.names s.scope body) (s.optionBlock body)
  | none => by
      rw [optionBlock, Stmt.stringsOption]
      rfl
  | some body => by
      rw [optionBlock, Stmt.stringsOption]
      exact s.says_block body

/-- The strings of the else body stand behind those of all branches, because it is written in the
false outcome of the last one. -/
theorem says_branches (s : Site) {elseTargets : List Ident → List Ident} {texts : List String}
    {script : Option (Script Unit)} (helse : OptionHolds texts script) : ∀ branches : List IfBranch,
    Says HasStrings (IfBranch.stringsOf s.context.names s.scope branches ++ texts)
      (s.branches elseTargets script branches)
  | [] => by
      rw [branches]
      exact says_fail _
  | ⟨condition, body⟩ :: rest => by
      have hcondition : ∀ v, s.value condition = .ok v → Says HasStrings
          (condition.strings s.context.names s.scope) (Script.enter (.matchCond v)) :=
        fun v hv => says_enter (hasStrings_line (value_strings hv) rfl)
      have hrest : OptionHolds (IfBranch.stringsOf s.context.names s.scope rest ++ texts)
          (if rest.isEmpty then script else some (s.branches elseTargets script rest)) := by
        cases rest with
        | nil =>
            rw [IfBranch.stringsOf]
            exact helse
        | cons next more => exact s.says_branches helse (next :: more)
      rw [branches, IfBranch.stringsOf, List.append_assoc, List.append_assoc]
      exact says_lift fun v hv => says_bind piecewise_strings (hcondition v hv) fun _ _ =>
        says_after piecewise_strings (says_enter (hasStrings_line rfl rfl)) fun _ _ =>
        says_bind piecewise_strings (s.says_block body) fun _ _ =>
        says_after piecewise_strings (says_leave (hasStrings_line rfl rfl)) fun _ _ =>
        says_before piecewise_strings hrest.falseArm fun _ _ =>
        says_after piecewise_strings (says_invalidArm _) fun _ _ =>
        says_leave (hasStrings_line rfl rfl)

/-- The strings in arms. -/
theorem says_arms (s : Site) : ∀ arms : List CaseArm,
    Says HasStrings (CaseArm.stringsOf s.context.names s.scope arms) (s.arms arms)
  | [] => by
      rw [arms, CaseArm.stringsOf]
      exact says_pure piecewise_strings ()
  | ⟨choices, body⟩ :: rest => by
      rw [arms, CaseArm.stringsOf, List.append_assoc]
      refine says_lift fun l hl => says_bind piecewise_strings (says_armLine hl) fun _ _ =>
        says_bind piecewise_strings (s.says_block body) fun _ _ => s.says_arms rest

end

end Site

/-! ### Strings in models -/

namespace Model

variable {m : Model}

private theorem says_strings_structures : Says HasStrings [] m.structures := by
  have hfields : Says HasStrings [] m.fieldLines := by
    unfold fieldLines
    refine says_after piecewise_strings (says_line (hasStrings_line rfl rfl)) fun _ _ =>
      says_after piecewise_strings (says_line (hasStrings_line rfl rfl)) fun _ _ =>
      says_after piecewise_strings (says_forEach_nil piecewise_strings fun d _ => ?_) fun _ _ =>
      says_forEach_nil piecewise_strings fun i _ => ?_
    · exact says_lift fun host _ => says_line (hasStrings_line rfl rfl)
    · exact says_lift fun host _ => says_lift fun type _ => says_line (hasStrings_line rfl rfl)
  have hproxies : Says HasStrings [] m.proxyLines := says_forEach_nil piecewise_strings fun d _ =>
    says_lift fun host _ => says_line (hasStrings_line rfl rfl)
  rw [structures_eq]
  exact says_after piecewise_strings (says_doc piecewise_strings _ _) fun _ _ =>
    says_after piecewise_strings (says_strings_enclosed rfl rfl hfields) fun _ _ =>
    says_after piecewise_strings (says_blank piecewise_strings) fun _ _ =>
    says_after piecewise_strings (says_strings_enclosed rfl rfl hproxies) fun _ _ =>
    says_blank piecewise_strings

/-- The strings in the function for a type. -/
private theorem says_strings_typeFunction (t : TypeItem) :
    Says HasStrings (t.strings m.context.names m.scope) (m.typeFunction t) := by
  rw [typeFunction_eq]
  refine says_lift fun name hname => says_lift fun value hvalue => ?_
  have hresult : Says HasStrings (t.strings m.context.names m.scope) (line (.result value)) :=
    says_line (hasStrings_line (Site.typeItemValue_strings hvalue) rfl)
  exact says_after piecewise_strings (says_doc piecewise_strings _ _) fun _ _ =>
    says_lift fun host _ => says_before piecewise_strings
      (says_strings_enclosed rfl rfl hresult) fun _ _ =>
    says_blank piecewise_strings

/-- The strings in a declaration. -/
theorem says_strings_declaration (kind : String) (d : Variable) :
    Says HasStrings (d.strings m.context.names m.scope) (m.declaration kind d) := by
  unfold declaration
  refine says_lift fun name hname => says_lift fun host hhost => ?_
  obtain rfl := Context.name_ok hname
  refine says_after piecewise_strings (says_doc piecewise_strings _ _) fun _ _ => ?_
  by_cases hconst : d.isConst = true
  · rw [if_pos hconst, Variable.strings, if_pos hconst]
    cases hvalue : d.value with
    | none => exact says_fail _
    | some e => exact says_lift fun v hv => says_line (hasStrings_line (Site.value_strings hv) rfl)
  · rw [if_neg hconst, Variable.strings, if_neg hconst]
    refine says_lift fun type htype => says_lift fun init hinit =>
      says_line (hasStrings_line ?_ rfl)
    rw [Line.strings, Site.typeValue_strings htype, Site.initValue_strings hinit]
    rfl

/-- The string in an instance is its name. -/
private theorem says_strings_instanceLocal (i : Instance) :
    Says HasStrings [m.context.names.textOf i.name] (m.instanceLocal i) := by
  unfold instanceLocal
  refine says_after piecewise_strings (says_doc piecewise_strings _ _) fun _ _ => ?_
  refine says_lift fun host _ => says_lift fun type _ => says_lift fun label hlabel => ?_
  obtain rfl := Context.name_ok hlabel
  exact says_line (hasStrings_line rfl rfl)

/-- The values of fields have no strings. -/
theorem says_strings_fieldInits {α : Type} (xs : List α) (name : α → Ident) :
    Says HasStrings [] (forEach xs fun x => m.fieldInit (name x)) :=
  says_forEach_nil piecewise_strings fun _ _ => says_lift fun _ _ =>
    says_line (hasStrings_line rfl rfl)

/-- The model as a value has no strings. -/
private theorem says_strings_selfValue : Says HasStrings [] m.selfValue := by
  have hio : Says HasStrings [] m.ioValue := by
    unfold ioValue
    split
    · exact says_line (hasStrings_line rfl rfl)
    · exact says_after piecewise_strings (says_enter (hasStrings_line rfl rfl)) fun _ _ =>
        says_after piecewise_strings (says_strings_fieldInits _ _) fun _ _ =>
        says_leaveWith (hasStrings_line rfl rfl)
  unfold selfValue
  exact says_after piecewise_strings (says_enter (hasStrings_line rfl rfl)) fun _ _ =>
    says_after piecewise_strings (says_line (hasStrings_line rfl rfl)) fun _ _ =>
    says_after piecewise_strings hio fun _ _ =>
    says_after piecewise_strings (says_strings_fieldInits _ _) fun _ _ =>
    says_after piecewise_strings (says_strings_fieldInits _ _) fun _ _ =>
    says_leave (hasStrings_line rfl rfl)

/-- **The constructor** has the strings of the declarations, then the names of the instances. -/
theorem says_strings_newBody :
    Says HasStrings (m.decls.flatMap (Variable.strings m.context.names m.scope) ++
      m.body.instances.map fun i => m.context.names.textOf i.name) m.newBody := by
  have hparts : Says HasStrings _ m.newBody :=
    says_after piecewise_strings (says_line (hasStrings_line rfl rfl)) fun _ _ =>
    says_bind piecewise_strings (says_headed piecewise_strings _ fun d _ =>
      says_strings_declaration _ d) fun _ _ =>
    says_bind piecewise_strings (says_headed piecewise_strings _ fun d _ =>
      says_strings_declaration _ d) fun _ _ =>
    says_before piecewise_strings (says_headed piecewise_strings _ fun i _ =>
      says_strings_instanceLocal i) fun _ _ => says_strings_selfValue
  exact hparts.congr (by simp [decls, List.map_eq_flatMap])

/-- The strings in the functions that make a model. -/
private theorem says_strings_constructor :
    Says HasStrings (m.body.types.flatMap (TypeItem.strings m.context.names m.scope) ++
      (m.decls.flatMap (Variable.strings m.context.names m.scope) ++
        m.body.instances.map fun i => m.context.names.textOf i.name)) m.constructor := by
  have hmakers : Says HasStrings _ m.makers :=
    says_bind piecewise_strings (says_forEach piecewise_strings fun t _ =>
      says_strings_typeFunction t) fun _ _ =>
    says_strings_enclosed rfl rfl says_strings_newBody
  rw [constructor_eq]
  exact says_before piecewise_strings (says_strings_enclosed rfl rfl hmakers) fun _ _ =>
    says_blank piecewise_strings

private theorem says_strings_connections (i : Instance) : Says HasStrings [] (m.connections i) := by
  unfold connections
  refine says_lift fun name _ => says_lift fun unit _ =>
    says_forEach_nil piecewise_strings fun b _ => ?_
  exact says_lift fun signal hsignal => says_lift fun port _ =>
    says_line (hasStrings_line (Site.proxyOf_strings hsignal) rfl)

/-- A list of proxies or models, each of them cloned. -/
theorem stringsOf_clones {α : Type} {xs : List α} {f : α → HostExpr}
    (h : ∀ x ∈ xs, (f x).strings = []) :
    stringsOf (xs.map fun x => .method (f x) "clone" []) = [] := by
  rw [stringsOf_eq_flatMap, List.flatMap_map, List.flatMap_eq_nil_iff]
  intro x hx
  simp [HostExpr.strings, stringsOf, h x hx]

/-- The label of a process stands before what it watches, and before what it drives. -/
theorem says_strings_registration (p : ProcessDecl) :
    Says HasStrings [m.context.names.textOf p.label, m.context.names.textOf p.label]
      (m.registration p) := by
  unfold registration
  refine says_lift fun label hlabel => says_lift fun triggers _ => says_lift fun hosts hhosts => ?_
  obtain rfl := Context.name_ok hlabel
  cases p.outputs with
  | none => exact says_fail _
  | some outputs =>
      refine says_lift fun proxies hproxies => ?_
      have hwatched : ∀ t ∈ hosts, t.proxy.strings = [] := by
        intro host hhost
        obtain ⟨t, -, ht⟩ := Except.exists_of_mem_mapM hhosts hhost
        obtain ⟨p, hp, ht⟩ := Except.bind_eq_ok_iff.mp ht
        obtain rfl := Except.pure_eq_ok_iff.mp ht
        exact Site.proxyOf_strings hp
      have hdriven : ∀ p ∈ proxies, p.strings = [] := by
        intro p hp
        obtain ⟨n, -, hn⟩ := Except.exists_of_mem_mapM hproxies hp
        exact Site.proxyOf_strings hn
      have hsensitivity : Says HasStrings [m.context.names.textOf p.label]
          (line (.setSensitivity (m.context.names.textOf p.label) hosts)) := by
        refine says_line (hasStrings_line ?_ rfl)
        rw [Line.strings, List.flatMap_eq_nil_iff.mpr hwatched]
      have houtputs : Says HasStrings [m.context.names.textOf p.label]
          (line (.setOutputs (m.context.names.textOf p.label)
            (proxies.map fun proxy => .method proxy "clone" []))) := by
        refine says_line (hasStrings_line ?_ rfl)
        rw [Line.strings, stringsOf_clones hdriven]
      exact says_bind piecewise_strings hsensitivity fun _ _ =>
        says_before piecewise_strings houtputs fun _ _ =>
        says_lift fun watched _ => says_lift fun driven _ => says_pure piecewise_strings _

/-- The strings in the registration are the names of processes. -/
private theorem says_strings_wiring :
    Says HasStrings ((m.body.processes.map fun p => m.context.names.textOf p.label) ++
      m.body.processes.flatMap fun p =>
        [m.context.names.textOf p.label, m.context.names.textOf p.label]) m.wiring := by
  have hfields : ∀ hosts : List HostName, Says HasStrings []
      (line (.setInterfaces (hosts.map fun n => .method (.field .proxies n) "clone" []))) :=
    fun hosts => says_line (hasStrings_line (stringsOf_clones fun _ _ => rfl) rfl)
  have hunits : ∀ hosts : List HostName, Says HasStrings []
      (line (.setUnits (hosts.map fun n =>
        .method (.field (.field .self n) (.plain "model")) "clone" []))) :=
    fun hosts => says_line (hasStrings_line (stringsOf_clones fun _ _ => rfl) rfl)
  unfold wiring
  refine says_after piecewise_strings
    (says_forEach_nil piecewise_strings fun i _ => says_strings_connections i) fun _ _ => ?_
  refine says_lift fun constants _ => says_lift fun interfaces _ => says_lift fun fields _ => ?_
  refine says_after piecewise_strings (hfields fields) fun _ _ => says_lift fun labels hlabels => ?_
  have hprocesses : Says HasStrings (m.body.processes.map fun p => m.context.names.textOf p.label)
      (line (.setProcesses labels)) := by
    refine says_line (hasStrings_line ?_ rfl)
    rw [Line.strings, Context.texts_ok hlabels, List.map_map]
    rfl
  refine says_bind piecewise_strings hprocesses fun _ _ => ?_
  refine says_lift fun units _ => says_lift fun unitFields _ => ?_
  refine says_after piecewise_strings (hunits unitFields) fun _ _ => ?_
  refine says_before piecewise_strings
    (says_mapM piecewise_strings fun p _ => says_strings_registration p) fun _ _ =>
    says_after piecewise_strings (says_forEach_nil piecewise_strings fun i _ => ?_) fun _ _ =>
    says_pure piecewise_strings _
  exact says_lift fun host _ => says_line (hasStrings_line rfl rfl)

private theorem says_strings_dispatch (index : Nat) (ps : List ProcessDecl) :
    Says HasStrings [] (m.dispatch index ps) := by
  induction ps generalizing index with
  | nil => exact says_pure piecewise_strings ()
  | cons p ps ih =>
      rw [dispatch]
      exact says_lift fun host _ =>
        says_after piecewise_strings (says_line (hasStrings_line rfl rfl)) fun _ _ => ih (index + 1)

/-- The string for a process that does not exist. -/
private theorem says_strings_dispatcher :
    Says HasStrings [m.context.unit.text ++ " has no process \x7bindex\x7d"] m.dispatcher := by
  have hmessage : Says HasStrings [m.context.unit.text ++ " has no process \x7bindex\x7d"]
      (line (.noProcess m.context.unit)) := by
    refine says_line (Line.stringTexts_tokens fun unit hunit => ?_)
    obtain rfl := Line.noProcess.inj hunit
    exact m.context.isProper_unit
  exact says_strings_enclosed rfl rfl
    (says_after piecewise_strings (says_strings_dispatch 0 _) fun _ _ => hmessage)

/-- The strings in the functions that the simulator calls. -/
private theorem says_strings_simUnit :
    Says HasStrings (((m.body.processes.map fun p => m.context.names.textOf p.label) ++
      m.body.processes.flatMap fun p =>
        [m.context.names.textOf p.label, m.context.names.textOf p.label]) ++
      [m.context.unit.text ++ " has no process \x7bindex\x7d"]) m.simUnit := by
  have hmodel : Says HasStrings [] (enclosed .modelFn (line .modelRef)) :=
    says_strings_enclosed rfl rfl (says_line (hasStrings_line rfl rfl))
  have hcallbacks : Says HasStrings _ m.callbacks :=
    says_after piecewise_strings hmodel fun _ _ =>
    says_after piecewise_strings (says_blank piecewise_strings) fun _ _ =>
    says_bind piecewise_strings (says_strings_enclosed rfl rfl says_strings_wiring) fun _ _ =>
    says_after piecewise_strings (says_blank piecewise_strings) fun _ _ =>
    says_before piecewise_strings (says_strings_enclosed rfl rfl says_strings_dispatcher) fun _ _ =>
    says_pure piecewise_strings _
  rw [simUnit_eq]
  exact says_strings_enclosed rfl rfl hcallbacks

/-- The strings in the function for a process. -/
theorem says_strings_processFunction (p : ProcessDecl) :
    Says HasStrings (Stmt.stringsOf m.context.names m.scope p.body) (m.processFunction p) := by
  rw [processFunction_eq]
  refine says_lift fun label _ => ?_
  exact says_after piecewise_strings (says_doc piecewise_strings _ _) fun _ _ =>
    says_lift fun host _ => says_before piecewise_strings
      (says_strings_enclosed rfl rfl (Site.says_block _ p.body)) fun _ _ =>
    says_log piecewise_strings _

/-- The strings in the functions for the processes. -/
private theorem says_strings_processes :
    Says HasStrings (m.body.processes.flatMap fun p =>
      Stmt.stringsOf m.context.names m.scope p.body) m.processes := by
  have hfunctions : ∀ ps : List ProcessDecl, Says HasStrings
      (ps.flatMap fun p => Stmt.stringsOf m.context.names m.scope p.body)
      (m.processFunctions ps) := by
    intro ps
    cases ps with
    | nil => exact says_pure piecewise_strings ()
    | cons first rest =>
        exact says_bind piecewise_strings (says_strings_processFunction first) fun _ _ =>
          says_forEach piecewise_strings fun p _ =>
            says_after piecewise_strings (says_blank piecewise_strings) fun _ _ =>
            says_strings_processFunction p
  rw [processes_eq]
  by_cases hnone : m.body.processes = []
  · rw [if_pos hnone, hnone]
    exact says_pure piecewise_strings ()
  · rw [if_neg hnone]
    exact says_after piecewise_strings (says_blank piecewise_strings) fun _ _ =>
      says_strings_enclosed rfl rfl (hfunctions _)

/-- **The code of a model** has the strings of types and variables, the names of instances, the
labels of processes, the message about an unknown process, and the strings in the processes. -/
theorem says_strings_code :
    Says HasStrings (m.body.types.flatMap (TypeItem.strings m.context.names m.scope) ++
      (m.decls.flatMap (Variable.strings m.context.names m.scope) ++
        m.body.instances.map fun i => m.context.names.textOf i.name) ++
      (((m.body.processes.map fun p => m.context.names.textOf p.label) ++
        m.body.processes.flatMap fun p =>
          [m.context.names.textOf p.label, m.context.names.textOf p.label]) ++
        [m.context.unit.text ++ " has no process \x7bindex\x7d"] ++
        m.body.processes.flatMap fun p => Stmt.stringsOf m.context.names m.scope p.body))
      m.code := by
  have hparts : Says HasStrings _ m.code :=
    says_after piecewise_strings says_strings_structures fun _ _ =>
    says_bind piecewise_strings says_strings_constructor fun _ _ =>
    says_bind piecewise_strings says_strings_simUnit fun _ _ =>
    says_before piecewise_strings says_strings_processes fun _ _ => says_pure piecewise_strings _
  exact hparts.congr (by simp only [List.append_assoc])

end Model

/-- **What is read from the code of a module** are its strings. -/
theorem Module.readStrings_code {names : NameTable} {m : Module} {name : String} {summary : Summary}
    (hname : names.resolve? m.name = some name)
    (hcode : (m.model names name).code.outcome = .ok summary) (level : Nat) :
    readStrings (String.ofList (rendered level (m.model names name).code.steps)) =
      some (m.strings names) := by
  have hstrings : stringTexts (stepTokens (m.model names name).code.steps) = some _ :=
    Model.says_strings_code summary hcode
  have hunit : (names.hostOf m.name).text = (HostName.escape name).text := by
    rw [NameTable.hostOf, NameTable.textOf_eq hname]
  rw [readStrings, String.toList_ofList, Model.code_tokens, Option.bind_some, hstrings,
    Module.strings, Module.declarations, m.variables_eq, hunit]
  simp only [List.append_assoc]
  rfl

/-- **Quoted strings denote their texts.**  Whatever characters a text is made of, what is written
for it is a string literal that denotes the text.  A literal says where it ends, so different texts
are never written alike, whatever follows them.  In the text of a model, the literals are those of
the names, labels and strings of the module, and each denotes what it was written for. -/
theorem strings_denote_texts :
    (∀ s, ∃ body, IsLiteral s (quote s).toList body) ∧
      (∀ s t as bs, quote s ++ as = quote t ++ bs ↔ s = t ∧ as = bs) ∧
      ∀ (names : NameTable) (settings : Settings) (session : Session) (m : Module)
        (summary : Summary), (session.emit names settings m).result = .ok summary →
        ∃ code, (session.emit names settings m).session.text =
            session.text ++ session.head settings (m.submodules names) ++ code ∧
          readStrings code = some (m.strings names) := by
  refine ⟨fun s => ⟨_, isLiteral_quote s⟩, fun s t as bs => ⟨fun h => ?_, ?_⟩,
    fun names settings session m summary h => ?_⟩
  · have hchars : (quote s).toList ++ as.toList = (quote t).toList ++ bs.toList := by
      rw [← String.toList_append, h, String.toList_append]
    obtain ⟨htexts, hrest⟩ := (isLiteral_quote s).append_inj (isLiteral_quote t) hchars
    exact ⟨htexts, String.toList_inj.mp hrest⟩
  · rintro ⟨rfl, rfl⟩
    rfl
  · obtain ⟨name, hname, -, hcode, htext⟩ := Session.emit_code h
    exact ⟨_, htext, Module.readStrings_code hname hcode _⟩

/-- A module whose names and strings hold quotes, backslashes, line breaks and a combining mark. -/
theorem strings_denote_texts_awkward :
    let names : NameTable :=
      ⟨["top", "q\"", "state", "a\\", "\u0301", "sub", "u\n", "d", "p\");", "\u2028"]⟩
    let settings : Settings := .standard
    let session : Session := .start none
    let m : Module :=
      { Module.empty ⟨0⟩ with
        items :=
          [.enumType ⟨⟨2⟩, none, [⟨⟨3⟩, none⟩, ⟨⟨4⟩, none⟩]⟩,
            .varDecl (.signal ⟨1⟩ (.named ⟨2⟩)),
            .varDecl (.constant ⟨9⟩ (.bits 8 false) (.literal (.str "\"\n"))),
            .process ((ProcessDecl.ofBody ⟨8⟩ [.name ⟨1⟩]
              [.assign (.name ⟨1⟩) (.name ⟨4⟩)]).withOutputs [⟨1⟩]),
            .subunit (.ofBindings ⟨6⟩ ⟨5⟩ [(⟨7⟩, ⟨1⟩)])] }
    ∃ summary code, (session.emit names settings m).result = .ok summary ∧
      (session.emit names settings m).session.text =
        session.text ++ session.head settings (m.submodules names) ++ code ∧
      readStrings code =
        some ["state", "a\\", "\u0301", "q\"", "\"\n", "u\n", "p\");", "p\");", "p\");",
          "top has no process \x7bindex\x7d", "\u0301"] := by
  intro names settings session m
  let summary : Summary :=
    ⟨"top", ["q\""], ["\u2028"], [⟨"p\");", [⟨"q\"", .anyChange⟩], ["q\""]⟩], ["u\n"]⟩
  have houtcome : (session.moduleScript settings ⟨names, "top"⟩ m).outcome = .ok summary := rfl
  have hname : names.resolve? m.name = some "top" := rfl
  have hlimit : session.writer.sink.limit = none := rfl
  have hresult : (session.emit names settings m).result = .ok summary := by
    rw [Session.emit_unlimited hname hlimit settings, houtcome]
  obtain ⟨code, htext, hstrings⟩ :=
    strings_denote_texts.2.2 names settings session m summary hresult
  refine ⟨summary, code, hresult, htext, ?_⟩
  have hmessage : (names.hostOf m.name).text ++ " has no process \x7bindex\x7d" =
      "top has no process \x7bindex\x7d" := by
    have hunit : (HostName.escape "top").text = "top" := rfl
    rw [NameTable.hostOf, NameTable.textOf_eq hname, hunit]
    decide
  rw [hstrings, Module.strings, Module.declarations, m.variables_eq, hmessage]
  rfl

end HdlSim
