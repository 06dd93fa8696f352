import HdlSim.Proofs.Identifiers
import HdlSim.Proofs.ModelReferences

/-!
# The variables of the constructor

The constructor consists of one statement for each variable that it makes, and of the value that it
returns.  The statements are read back from the text of a model, with the expressions in them
(`HostLet.ofCode`).

Main statement: they are those of what the simulator keeps in the model, of the ports, the variables
and the instances, in this order, and the identifiers in each of them are those of what the
declaration mentions (`Session.emit_locals`).  What such an identifier denotes depends on the
statements above it (`HostLet.BoundAbove`): signals and constants have to be bound there, and
everything else must not be.
-/

namespace HdlSim

open Text Script HostExpr

/-! ### Statements of the constructor -/

/-- The statement that makes a variable of the constructor. -/
inductive HostLet where
  /-- What the simulator keeps in the model. -/
  | model (name : HostName)
  | constant (name : HostName) (value : HostExpr)
  | proxy (name : HostName) (type : HostExpr) (init : Option HostExpr)
  | unit (name : HostName) (module : HostName)

namespace HostLet

/-- The variable. -/
def name : HostLet → HostName
  | .model n | .constant n _ | .proxy n _ _ | .unit n _ => n

/-- The identifiers in the expressions of the statement. -/
def identifiers : HostLet → List HostName
  | .constant _ value => value.identifiers
  | .proxy _ type init => type.identifiers ++ init.elim [] HostExpr.identifiers
  | .model _ | .unit _ _ => []

/-- The variable with the identifiers that its value is made of. -/
def entry (l : HostLet) : HostName × List HostName := (l.name, l.identifiers)

/-- The last argument for a proxy. -/
def initOf? : List Token → Option (Option HostExpr)
  | [.word "None", .sign ')'] => some none
  | .word "Some" :: .sign '(' :: ts =>
    match operand [] ts with
    | some (value, [.sign ')', .sign ')']) => some (some value)
    | _ => none
  | _ => none

/-- The statement with this variable, given whose function is called and with which arguments behind
the simulator. -/
def ofArgs? (name : HostName) (maker : Token) : List Token → Option HostLet
  | [.word "inst_name", .sign ')'] =>
    if maker = .word "SimModel" then some (.model name) else none
  | [.quoted _, .sign ')'] => maker.name?.map (.unit name)
  | .sign '&' :: .word "model" :: .sign ',' :: .quoted _ :: .sign ',' :: ts =>
    match operand [] ts with
    | some (type, .sign ',' :: rest) =>
      if maker = .word "SimProxy" then (initOf? rest).map (.proxy name type) else none
    | _ => none
  | _ => none

/-- The statement with these tokens between `let` and the semicolon. -/
def ofTokens? : List Token → Option HostLet
  | n :: .sign ':' :: .word "HdlValue" :: .sign '=' :: ts => do
    let name ← n.name?
    let value ← whole ts
    return .constant name value
  | n :: .sign '=' :: maker :: .sign ':' :: .sign ':' :: .word "new" :: .sign '(' ::
      .word "sim" :: .sign ',' :: args => do
    let name ← n.name?
    ofArgs? name maker args
  | _ => none

/-- The statements in the body of a function. -/
def readAll : List Token → Option (List HostLet)
  | [] => some []
  | .word "let" :: ts => do
    let first ← ofTokens? (ts.takeWhile (· ≠ .sign ';'))
    let rest ← readAll ts
    return first :: rest
  | _ :: ts => readAll ts

end HostLet

/-- The functions in an item. -/
def HostItem.functions : HostItem → List HostFunction
  | .struct _ _ => []
  | .impl _ _ functions => functions

/-- The constructor among some items. -/
def HostItem.constructor? (items : List HostItem) : Option HostFunction :=
  (items.flatMap functions).find? fun f => f.name = .plain "new"

/-- **The statements of the constructor** in the text of a model. -/
def HostLet.ofCode (code : String) : Option (List HostLet) := do
  let items ← HostItem.read code
  let new ← HostItem.constructor? items
  readAll new.body

/-! ### Reading the statements -/

/-- The statements in the code have these variables and identifiers, whatever follows. -/
def ReadsLets (entries : List (HostName × List HostName)) (ts : List Token) : Prop :=
  ∃ lets : List HostLet, lets.map HostLet.entry = entries ∧
    ∀ us, HostLet.readAll (ts ++ us) = (HostLet.readAll us).map (lets ++ ·)

namespace HostLet

/-- Tokens that bind nothing are passed over. -/
theorem readAll_noLet {ts : List Token} (h : NoLet ts) (us : List Token) :
    readAll (ts ++ us) = readAll us := by
  induction ts with
  | nil => rfl
  | cons t ts ih =>
      obtain ⟨ht, hts⟩ := noLet_cons.mp h
      rw [List.cons_append, readAll]
      · exact ih hts
      · intro heq
        exact ht heq

/-- What is read of the constructor is about its bindings only. -/
theorem aboutLets_readsLets : AboutLets ReadsLets where
  nil := ⟨[], rfl, fun us => by simp⟩
  append := by
    intro es fs ts us hts hus
    obtain ⟨left, hleft, hreadLeft⟩ := hts
    obtain ⟨right, hright, hreadRight⟩ := hus
    refine ⟨left ++ right, by rw [List.map_append, hleft, hright], fun more => ?_⟩
    rw [List.append_assoc, hreadLeft, hreadRight, Option.map_map]
    congr 1
    funext rest
    simp
  noLet := by
    intro ts hts
    refine ⟨[], rfl, fun us => ?_⟩
    rw [readAll_noLet hts]
    simp

/-- One statement. -/
theorem readsLets_of_let {l : HostLet} {ts : List Token} (hplain : ∀ t ∈ ts, t ≠ .sign ';')
    (hlet : NoLet ts) (hread : ofTokens? ts = some l) :
    ReadsLets [l.entry] (.word "let" :: (ts ++ [Token.sign ';'])) := by
  refine ⟨[l], rfl, fun us => ?_⟩
  have hbody : (ts ++ [Token.sign ';'] ++ us).takeWhile (· ≠ .sign ';') = ts := by
    rw [List.append_assoc, List.takeWhile_append_of_pos (by simpa using hplain)]
    simp
  have hrest : NoLet (ts ++ [Token.sign ';']) := noLet_append.mpr ⟨hlet, by simp [noLet_nil]⟩
  rw [List.cons_append, readAll, hbody, hread, readAll_noLet hrest]
  cases readAll us <;> rfl

/-- An expression in front of other arguments, or of the end of the call. -/
theorem operand_argument {e : HostExpr} (he : Operand e) {c : Char} (hc : c = ',' ∨ c = ')')
    (ts : List Token) :
    operand [] (e.tokens ++ .sign c :: ts) = some (e, .sign c :: ts) := by
  rcases hc with rfl | rfl
  · rw [he.derives.reads.of_postfixRank [] (by simp)]
    rfl
  · rw [he.derives.reads.of_postfixRank [] (by simp)]
    rfl

private theorem initOf?_initTokens {init : Option HostExpr} (h : ∀ v ∈ init, Operand v) :
    initOf? (initTokens init ++ [Token.sign ')']) = some init := by
  cases init with
  | none => rfl
  | some v =>
      have htokens : initTokens (some v) ++ [Token.sign ')'] =
          .word "Some" :: .sign '(' :: (v.tokens ++ [Token.sign ')', .sign ')']) := by
        simp [initTokens]
      rw [htokens, initOf?, operand_argument (h v rfl) (.inr rfl)]
      rfl

/-- An initial value has neither braces nor semicolons. -/
private theorem plain_initTokens {init : Option HostExpr} (h : ∀ v ∈ init, Operand v) :
    Plain (initTokens init) := by
  cases init with
  | none => decide
  | some v =>
      have hvalue := (h v rfl).derives.plain
      have hsome : initTokens (some v) =
          [Token.word "Some", .sign '('] ++ v.tokens ++ [Token.sign ')'] := rfl
      rw [hsome]
      exact plain_append (plain_append (by decide) hvalue) (by decide)

variable {n : HostName}

/-- The binding of the simulator's part of the model. -/
private theorem readsLets_letModel : ReadsLets [(.plain "model", [])] Line.letModel.tokens := by
  have hread : ofTokens? [.word "model", .sign '=', .word "SimModel", .sign ':', .sign ':',
      .word "new", .sign '(', .word "sim", .sign ',', .word "inst_name", .sign ')'] =
      some (.model (.plain "model")) := rfl
  exact readsLets_of_let (by simp) (by simp [noLet_nil]) hread

private theorem readsLets_letConst (hn : n.IsProper) {value : HostExpr} (hvalue : Operand value) :
    ReadsLets [(n, value.identifiers)] (Line.letConst n value).tokens := by
  have hread : ofTokens? (.word n.text :: .sign ':' :: .word "HdlValue" :: .sign '=' ::
      value.tokens) = some (.constant n value) := by
    rw [ofTokens?, hn.name?, whole_tokens hvalue]
    rfl
  refine readsLets_of_let ?_ ?_ hread
  · have hplain := hvalue.derives.plain
    simpa using fun t ht => (hplain t ht).1
  · simp [hn.ne_let, hvalue.noLet]

private theorem readsLets_letProxy (hn : n.IsProper) (label : String) {type : HostExpr}
    (htype : Operand type) {init : Option HostExpr} (hinit : ∀ v ∈ init, Operand v) :
    ReadsLets [(n, type.identifiers ++ init.elim [] HostExpr.identifiers)]
      (Line.letProxy n label type init).tokens := by
  have hargs : ofArgs? n (.word "SimProxy") (.sign '&' :: .word "model" :: .sign ',' ::
      .str label :: .sign ',' ::
        (type.tokens ++ .sign ',' :: (initTokens init ++ [Token.sign ')']))) =
      some (.proxy n type init) := by
    rw [Token.str, ofArgs?, operand_argument htype (.inl rfl)]
    simp [initOf?_initTokens hinit]
  have hread : ofTokens? (.word n.text :: .sign '=' :: .word "SimProxy" :: .sign ':' ::
      .sign ':' :: .word "new" :: .sign '(' :: .word "sim" :: .sign ',' :: .sign '&' ::
      .word "model" :: .sign ',' :: .str label :: .sign ',' ::
      (type.tokens ++ .sign ',' :: (initTokens init ++ [Token.sign ')']))) =
      some (.proxy n type init) := by
    rw [ofTokens?, hn.name?]
    exact hargs
  have hlet := readsLets_of_let ?_ ?_ hread
  · simpa [Line.tokens, entry, name, identifiers] using hlet
  · have hplain := htype.derives.plain
    have hinitPlain := plain_initTokens hinit
    simp only [List.forall_mem_cons, List.forall_mem_append]
    simpa using ⟨fun t ht => (hplain t ht).1, fun t ht => (hinitPlain t ht).1⟩
  · simp [noLet_append, hn.ne_let, htype.noLet, noLet_initTokens hinit, noLet_nil]

private theorem readsLets_letUnit (hn : n.IsProper) {module : HostName} (hmodule : module.IsProper)
    (label : String) : ReadsLets [(n, [])] (Line.letUnit n module label).tokens := by
  have hargs : ofArgs? n (.word module.text) [.str label, .sign ')'] = some (.unit n module) := by
    rw [Token.str, ofArgs?, hmodule.name?]
    rfl
  have hread : ofTokens? [.word n.text, .sign '=', .word module.text, .sign ':', .sign ':',
      .word "new", .sign '(', .word "sim", .sign ',', .str label, .sign ')'] =
      some (.unit n module) := by
    rw [ofTokens?, hn.name?]
    exact hargs
  refine readsLets_of_let (by simp) ?_ hread
  simp [hn.ne_let, hmodule.ne_let, noLet_nil]

end HostLet

/-! ### The statements of a model -/

/-- What a declaration mentions.  The type of a constant is not written. -/
def Variable.mentions (scope : Scope) (d : Variable) : List Mention :=
  let value := d.value.elim [] (Expr.mentions scope)
  if d.isConst then value else d.type.mentions scope ++ value

/-- The identifier for what is mentioned in the constructor. -/
def NameTable.identifier (names : NameTable) : Mention → HostName
  | .own n | .outer n => names.hostOf n
  | .runtime maker => .plain maker.text

/-- In the constructor every mention is an identifier. -/
theorem Site.filterMap_identifier? {s : Site} (h : s.place = .constructor)
    (ms : List Mention) :
    ms.filterMap s.identifier? = ms.map s.context.names.identifier := by
  rw [← List.filterMap_eq_map]
  congr 1
  funext mention
  cases mention <;> simp [identifier?, NameTable.identifier, h]

private theorem Site.initValue_identifiers {s : Site} {e : Option Expr} {init : Option HostExpr}
    (h : s.initValue e = .ok init) :
    init.elim [] HostExpr.identifiers =
      (e.elim [] (Expr.mentions s.scope)).filterMap s.identifier? := by
  cases e with
  | none =>
      obtain rfl := Except.pure_eq_ok_iff.mp h
      rfl
  | some x =>
      obtain ⟨value, hvalue, h⟩ := Except.bind_eq_ok_iff.mp h
      obtain rfl := Except.pure_eq_ok_iff.mp h
      exact (value_mirrors hvalue).identifiers_eq

namespace Model

variable {m : Model}

/-- The variable for a declaration, with the identifiers for what it mentions. -/
def declEntry (m : Model) (d : Variable) : HostName × List HostName :=
  (m.context.names.hostOf d.name, (d.mentions m.scope).map m.context.names.identifier)

/-- The binding of a declaration, with the identifiers that it mentions. -/
private theorem readsLets_declaration (kind : String) (d : Variable) :
    Says ReadsLets [m.declEntry d] (m.declaration kind d) := by
  have hpieces := HostLet.aboutLets_readsLets.toPiecewise
  unfold declaration
  refine says_lift fun name hname => says_lift fun host hhost => ?_
  obtain rfl : host = m.context.names.hostOf d.name := Context.host_ok hhost
  have hproper := m.context.names.isProper_hostOf d.name
  refine says_after hpieces (says_doc hpieces _ _) fun _ _ => ?_
  by_cases hconst : d.isConst = true
  · rw [if_pos hconst]
    cases hvalue : d.value with
    | none => exact says_fail _
    | some e =>
        refine says_lift fun v hv => says_line ?_
        have hmirrors := Site.value_mirrors hv
        have hidentifiers := hmirrors.identifiers_eq
        rw [Site.filterMap_identifier? rfl] at hidentifiers
        have hentry : m.declEntry d = (m.context.names.hostOf d.name, v.identifiers) := by
          simp [declEntry, Variable.mentions, hconst, hvalue, hidentifiers]
        rw [hentry]
        exact HostLet.readsLets_letConst hproper hmirrors.operand
  · rw [if_neg hconst]
    refine says_lift fun type htype => says_lift fun init hinit => says_line ?_
    have hmirrors := Site.typeValue_mirrors htype
    have hidentifiers := hmirrors.identifiers_eq
    have hinitIdentifiers := Site.initValue_identifiers hinit
    rw [Site.filterMap_identifier? rfl] at hidentifiers hinitIdentifiers
    have hentry : m.declEntry d = (m.context.names.hostOf d.name,
        type.identifiers ++ init.elim [] HostExpr.identifiers) := by
      simp [declEntry, Variable.mentions, hconst, hidentifiers, hinitIdentifiers]
    rw [hentry]
    exact HostLet.readsLets_letProxy hproper name hmirrors.operand (Site.initValue_operand hinit)

/-- The binding of an instance, which mentions none. -/
private theorem readsLets_instanceLocal (i : Instance) :
    Says ReadsLets [(m.context.names.hostOf i.name, [])] (m.instanceLocal i) := by
  have hpieces := HostLet.aboutLets_readsLets.toPiecewise
  unfold instanceLocal
  refine says_after hpieces (says_doc hpieces _ _) fun _ _ => ?_
  refine says_lift fun host hhost => says_lift fun type htype => says_lift fun label _ => ?_
  obtain rfl : host = m.context.names.hostOf i.name := Context.host_ok hhost
  exact says_line (HostLet.readsLets_letUnit (m.context.names.isProper_hostOf i.name)
    (Context.isProper_host htype) label)

/-- The statements of the constructor. -/
theorem readAll_newFunction {summary : Summary} (hok : m.code.outcome = .ok summary) :
    ∃ lets, HostLet.readAll m.newFunction.body = some lets ∧
      lets.map HostLet.entry = (.plain "model", []) :: (m.decls.map m.declEntry ++
        m.body.instances.map fun i => (m.context.names.hostOf i.name, [])) := by
  have hsays := says_newBody (m := m) HostLet.aboutLets_readsLets
    (says_line HostLet.readsLets_letModel) readsLets_declaration readsLets_instanceLocal
  obtain ⟨lets, hentries, hread⟩ := hsays _ (outcome_newBody hok)
  have hend := hread []
  rw [List.append_nil] at hend
  refine ⟨lets, ?_, hentries⟩
  simpa [newFunction, HostLet.readAll] using hend

end Model

/-- No name has a reserved word for its identifier. -/
theorem NameTable.hostOf_ne_plain (names : NameTable) (n : Ident) {w : String}
    (hw : w ∈ HostName.reserved) : names.hostOf n ≠ .plain w := by
  intro heq
  apply HostName.escape_word_not_mem (names.textOf n)
  have hword : (HostName.escape (names.textOf n)).word = w := congrArg HostName.word heq
  rw [hword]
  exact hw

/-- The constructor of a model is found among its items. -/
theorem Model.constructor?_host (m : Model) :
    HostItem.constructor? m.host.items = some m.newFunction := by
  have htypes : (m.body.types.map m.maker).find? (fun f => f.name = .plain "new") = none := by
    rw [List.find?_eq_none]
    intro f hf
    obtain ⟨t, -, rfl⟩ := List.mem_map.mp hf
    have hname := m.context.names.hostOf_ne_plain t.name (w := "new") (by decide)
    exact fun heq => hname (of_decide_eq_true heq)
  have hitems : ∃ more, m.host.items.flatMap HostItem.functions =
      m.body.types.map m.maker ++ m.newFunction :: more := by
    simp [HostModel.items, HostItem.functions, host]
  obtain ⟨more, hmore⟩ := hitems
  rw [HostItem.constructor?, hmore, List.find?_append, htypes]
  simp [newFunction]

/-! ### The statements for a module -/

/-- The declarations of data, in the order of their statements. -/
def Module.declarations (m : Module) : List Variable := m.ports ++ m.variables

/-- **The variables of the constructor**, each with the identifiers that its value is made of. -/
def Module.locals (names : NameTable) (m : Module) : List (HostName × List HostName) :=
  (.plain "model", []) ::
    ((m.declarations.map fun d =>
        (names.hostOf d.name, (d.mentions m.scope).map names.identifier)) ++
      m.instances.map fun i => (names.hostOf i.name, []))

/-- **The statements of the constructor** that is written of a module. -/
theorem Session.emit_locals {names : NameTable} {settings : Settings} {session : Session}
    {m : Module} {summary : Summary} (h : (session.emit names settings m).result = .ok summary) :
    ∃ code lets, (session.emit names settings m).session.text =
        session.text ++ session.head settings (m.submodules names) ++ code ∧
      HostLet.ofCode code = some lets ∧ lets.map HostLet.entry = m.locals names := by
  obtain ⟨name, hname, -, hcode, htext⟩ := Session.emit_code h
  obtain ⟨lets, hread, hentries⟩ := Model.readAll_newFunction hcode
  refine ⟨_, lets, htext, ?_, ?_⟩
  · rw [HostLet.ofCode, Model.read_code hcode]
    simpa [Model.constructor?_host] using hread
  · rw [hentries, Module.locals, Module.declarations, m.variables_eq]
    rfl

namespace HostLet

/-- One of the first so many statements makes a variable of this name, so this is what the
identifier denotes in the next one. -/
def BoundAbove (lets : List HostLet) (line : Nat) (n : HostName) : Prop :=
  n ∈ (lets.take line).map name

variable {names : NameTable} {m : Module} {lets : List HostLet}

/-- The names that are bound, in order. -/
theorem map_name_eq (h : lets.map entry = m.locals names) :
    lets.map name = .plain "model" :: (m.declarations.map (fun d => names.hostOf d.name) ++
      m.instances.map fun i => names.hostOf i.name) := by
  have hnames : lets.map name = (m.locals names).map Prod.fst := by
    rw [← h, List.map_map]
    rfl
  rw [hnames, Module.locals]
  simp [Function.comp_def]

/-- **What is bound above** the statement of a declaration are the declarations in front of it. -/
theorem boundAbove_iff (h : lets.map entry = m.locals names) {j : Nat}
    (hj : j ≤ m.declarations.length) {n : HostName} (hn : n ≠ .plain "model") :
    BoundAbove lets (j + 1) n ↔ ∃ d ∈ m.declarations.take j, names.hostOf d.name = n := by
  have hfront : (lets.take (j + 1)).map name =
      .plain "model" :: (m.declarations.take j).map fun d => names.hostOf d.name := by
    rw [List.map_take, map_name_eq h, List.take_succ_cons, List.take_append_of_le_length (by simpa),
      List.map_take]
  rw [BoundAbove, hfront, List.mem_cons, List.mem_map]
  constructor
  · rintro (heq | hd)
    · exact absurd heq hn
    · exact hd
  · exact .inr

end HostLet

end HdlSim
