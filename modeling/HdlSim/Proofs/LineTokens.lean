import HdlSim.Proofs.Code

/-!
# The tokens of a line

What each line of a model says as code (`Line.tokens`).  A line whose names and values are read back
from their text is `Legible`, and the text of legible lines has their tokens, in order
(`codeTokens_rendered`).
-/

namespace HdlSim

open Text

/-- A text as a string literal. -/
def Token.str (text : String) : Token := .quoted (text.toList.flatMap escapeChar)

@[simp] theorem Token.str_ne_sign (text : String) (c : Char) : Token.str text ≠ .sign c := by
  simp [Token.str]

@[simp] theorem Token.str_ne_word (text w : String) : Token.str text ≠ .word w := by
  simp [Token.str]

/-- The tokens of an initial value as an argument. -/
def initTokens : Option HostExpr → List Token
  | some value => .word "Some" :: .sign '(' :: value.tokens ++ [.sign ')']
  | none => [.word "None"]

/-- The tokens of a watched signal. -/
def HostTrigger.tokens (t : HostTrigger) : List Token :=
  [.word "Trigger", .sign ':', .sign ':', .word t.edge.maker, .sign '(', .sign '&'] ++
    t.proxy.tokens ++ [.sign ')']

/-- The tokens of the receiver of a function. -/
def receiverTokens : List Token := [.sign '&', .word "mut", .word "self"]

/-- The tokens of a member of the model. -/
def memberTokens (name : String) : List Token := [.word "self", .sign '.', .word name]

/-- The tokens up to the arguments of a call by which a simulator gets to know the model. -/
def registerTokens (method : String) : List Token :=
  memberTokens "model" ++ [.sign '.', .word method, .sign '(']

/-- The tokens of a list of values as an argument. -/
def vecTokens (lists : List (List Token)) : List Token :=
  [.word "vec", .sign '!', .sign '['] ++ commaTokens lists ++ [.sign ']']

/-- The tokens of a call that is a statement. -/
def callTokens (receiver : List Token) (method : String) (args : List (List Token)) : List Token :=
  receiver ++ [.sign '.', .word method, .sign '('] ++ commaTokens args ++ [.sign ')', .sign ';']

/-- **The tokens of a line.** -/
def Line.tokens : Line → List Token
  | .comment _ _ | .verbatim _ | .useModule _ _ => []
  | .close => [.sign '\x7d']
  | .closeField => [.sign '\x7d', .sign ',']
  | .structDecl name => [.word "pub", .word "struct", .word name.text, .sign '\x7b']
  | .fieldDecl name type =>
    [.word "pub", .word name.text, .sign ':', .word type.text, .sign ',']
  | .implBlock unit => [.word "impl", .word unit.text, .sign '\x7b']
  | .typeFn name =>
    [.word "pub", .word "fn", .word name.text, .sign '(', .sign ')', .sign '-', .sign '>',
      .word "HdlType", .sign '\x7b']
  | .result value => value.tokens
  | .newFn =>
    [.word "pub", .word "fn", .word "new", .sign '(', .word "sim", .sign ':', .sign '&',
      .word "mut", .word "Simulator", .sign ',', .word "inst_name", .sign ':', .sign '&',
      .word "str", .sign ')', .sign '-', .sign '>', .word "Self", .sign '\x7b']
  | .letModel =>
    [.word "let", .word "model", .sign '=', .word "SimModel", .sign ':', .sign ':', .word "new",
      .sign '(', .word "sim", .sign ',', .word "inst_name", .sign ')', .sign ';']
  | .letConst name value =>
    [.word "let", .word name.text, .sign ':', .word "HdlValue", .sign '='] ++ value.tokens ++
      [.sign ';']
  | .letProxy name label type init =>
    [.word "let", .word name.text, .sign '=', .word "SimProxy", .sign ':', .sign ':', .word "new",
      .sign '(', .word "sim", .sign ',', .sign '&', .word "model", .sign ',', .str label,
      .sign ','] ++ type.tokens ++ [.sign ','] ++ initTokens init ++ [.sign ')', .sign ';']
  | .letUnit name module label =>
    [.word "let", .word name.text, .sign '=', .word module.text, .sign ':', .sign ':',
      .word "new", .sign '(', .word "sim", .sign ',', .str label, .sign ')', .sign ';']
  | .selfValue => [.word "Self", .sign '\x7b']
  | .fieldInit name => [.word name.text, .sign ',']
  | .ioValue io => [.word "io", .sign ':', .word io.text, .sign '\x7b']
  | .emptyIoValue io =>
    [.word "io", .sign ':', .word io.text, .sign '\x7b', .sign '\x7d', .sign ',']
  | .simUnitImpl unit =>
    [.word "impl", .word "SimUnit", .word "for", .word unit.text, .sign '\x7b']
  | .modelFn =>
    [.word "fn", .word "model", .sign '('] ++ receiverTokens ++
      [.sign ')', .sign '-', .sign '>', .sign '&', .word "mut", .word "SimModel", .sign '\x7b']
  | .modelRef => [.sign '&', .word "mut"] ++ memberTokens "model"
  | .initBodyFn =>
    [.word "fn", .word "init_body", .sign '('] ++ receiverTokens ++ [.sign ')', .sign '\x7b']
  | .connect signal unit port =>
    [.word "connect_sim_port", .sign '(', .sign '&'] ++ signal.tokens ++
      [.sign ',', .sign '&', .word "mut"] ++ memberTokens unit.text ++
      [.sign '.', .word "io", .sign '.', .word port.text, .sign ')', .sign ';']
  | .setInterfaces signals =>
    registerTokens "set_interfaces" ++ vecTokens (HostExpr.tokenLists signals) ++
      [.sign ')', .sign ';']
  | .setProcesses labels =>
    registerTokens "set_processes" ++ [.sign '&', .sign '['] ++
      commaTokens (labels.map fun label => [.str label]) ++ [.sign ']', .sign ')', .sign ';']
  | .setUnits units =>
    registerTokens "set_units" ++ vecTokens (HostExpr.tokenLists units) ++ [.sign ')', .sign ';']
  | .setSensitivity label triggers =>
    registerTokens "set_sensitivity" ++ [.str label, .sign ','] ++
      vecTokens (triggers.map HostTrigger.tokens) ++ [.sign ')', .sign ';']
  | .setOutputs label signals =>
    registerTokens "set_outputs" ++ [.str label, .sign ','] ++
      vecTokens (HostExpr.tokenLists signals) ++ [.sign ')', .sign ';']
  | .initUnit unit =>
    memberTokens unit.text ++ [.sign '.', .word "init_body", .sign '(', .sign ')', .sign ';']
  | .runProcessFn =>
    [.word "fn", .word "run_process", .sign '('] ++ receiverTokens ++
      [.sign ',', .word "index", .sign ':', .word "usize", .sign ')', .sign '\x7b']
  | .matchIndex => [.word "match", .word "index", .sign '\x7b']
  | .dispatch index process =>
    [.word (natText index), .sign '=', .sign '>'] ++ memberTokens process.text ++
      [.sign '(', .sign ')', .sign ',']
  | .noProcess unit =>
    [.word "_", .sign '=', .sign '>', .word "unreachable", .sign '!', .sign '(',
      .quoted (unit.text.toList ++ " has no process \x7bindex\x7d".toList), .sign ')', .sign ',']
  | .processFn name =>
    [.word "pub", .word "fn", .word name.text, .sign '('] ++ receiverTokens ++
      [.sign ')', .sign '\x7b']
  | .write proxy value => callTokens proxy.tokens "write" [value.tokens]
  | .writeAt proxy index value => callTokens proxy.tokens "write_at" [index.tokens, value.tokens]
  | .writeSlice proxy high low value =>
    callTokens proxy.tokens "write_slice" [high.tokens, low.tokens, value.tokens]
  | .writeInvalid proxy => callTokens proxy.tokens "write_invalid" []
  | .matchCond condition =>
    [.word "match", .word "sim_eval_cond", .sign '('] ++ condition.tokens ++
      [.sign ')', .sign '\x7b']
  | .condTrue => outcomeHead "True" ++ [.sign '\x7b']
  | .condFalse => outcomeHead "False" ++ [.sign '\x7b']
  | .condFalseEmpty => outcomeHead "False" ++ [.sign '\x7b', .sign '\x7d']
  | .condInvalid => outcomeHead "Invalid" ++ [.sign '\x7b']
  | .condInvalidEmpty => outcomeHead "Invalid" ++ [.sign '\x7b', .sign '\x7d']
  | .bareBlock => [.sign '\x7b']
  | .letSelector selector =>
    [.word "let", .word "sel", .sign '='] ++ selector.tokens ++ [.sign ';']
  | .ifSelectorInvalid => invalidHead ++ [.sign '\x7b']
  | .elseIfMatches choices =>
    [.sign '\x7d', .word "else", .word "if"] ++ choiceTokens choices ++ [.sign '\x7b']
  | .elseBlock => [.sign '\x7d', .word "else", .sign '\x7b']

/-- The value has its tokens. -/
def HostExpr.IsSpelled (e : HostExpr) : Prop := Spelled e.text e.tokens

/-- The names and values in the line are read back from their text, and no line feed is in it. -/
def Line.Legible : Line → Prop
  | .comment _ text => OneLine text
  | .verbatim text => text = ""
  | .useModule _ _ => False
  | .structDecl name | .implBlock name | .typeFn name | .fieldInit name | .ioValue name
  | .emptyIoValue name | .simUnitImpl name | .initUnit name | .dispatch _ name | .noProcess name
  | .processFn name => name.IsProper
  | .fieldDecl name type | .letUnit name type _ => name.IsProper ∧ type.IsProper
  | .result value | .writeInvalid value | .matchCond value | .letSelector value => value.IsSpelled
  | .letConst name value => name.IsProper ∧ value.IsSpelled
  | .letProxy name _ type init =>
    name.IsProper ∧ type.IsSpelled ∧ ∀ value ∈ init, value.IsSpelled
  | .connect signal unit port => signal.IsSpelled ∧ unit.IsProper ∧ port.IsProper
  | .setInterfaces values | .setUnits values | .setOutputs _ values | .elseIfMatches values =>
    ∀ value ∈ values, value.IsSpelled
  | .setSensitivity _ triggers => ∀ t ∈ triggers, t.proxy.IsSpelled
  | .write proxy value => proxy.IsSpelled ∧ value.IsSpelled
  | .writeAt proxy index value => proxy.IsSpelled ∧ index.IsSpelled ∧ value.IsSpelled
  | .writeSlice proxy high low value =>
    proxy.IsSpelled ∧ high.IsSpelled ∧ low.IsSpelled ∧ value.IsSpelled
  | _ => True

/-! ### From the text of a line to its tokens -/

/-- An initial value is spelled out, also if it is missing. -/
private theorem spelled_init {init : Option HostExpr} (h : ∀ value ∈ init, value.IsSpelled) :
    Spelled (initText init) (initTokens init) := by
  cases init with
  | none => exact ⟨isCode_literal (by decide), lexes_word (by decide) (by decide)⟩
  | some value =>
      exact ((closed_fixed "Some(" [.word "Some", .sign '(']).slot (h value rfl)
        ")" [.sign ')']).spelled

/-- A trigger is spelled out. -/
theorem HostTrigger.spelled {t : HostTrigger} (h : t.proxy.IsSpelled) :
    Spelled t.text t.tokens := by
  obtain ⟨edge, proxy⟩ := t
  have hmaker : Spelled edge.maker [.word edge.maker] := by
    cases edge <;>
      exact ⟨isCode_literal (by decide), lexes_word (by decide) (by decide)⟩
  have hfront := closed_fixed "Trigger::" [.word "Trigger", .sign ':', .sign ':']
  exact ((hfront.slot hmaker "(&" [.sign '(', .sign '&']).slot h ")" [.sign ')']).spelled

/-- Some values with commas between them are spelled out. -/
theorem spelled_texts {values : List HostExpr} (h : ∀ value ∈ values, value.IsSpelled) :
    Spelled (commaList (HostExpr.texts values)) (commaTokens (HostExpr.tokenLists values)) := by
  rw [HostExpr.texts_eq_map, HostExpr.tokenLists_eq_map]
  exact spelled_commaList h

/-- A number is spelled out as one word. -/
private theorem spelled_natText (n : Nat) : Spelled (natText n) [.word (natText n)] :=
  ⟨isCode_natText n, lexes_natText n⟩

/-- A test against a choice is spelled out. -/
theorem spelled_matchesText {c : HostExpr} (h : c.IsSpelled) :
    Spelled (matchesText c) (testTokens c) :=
  ((closed_fixed "sel.matches(&"
    [.word "sel", .sign '.', .word "matches", .sign '(', .sign '&']).slot h
      ")" [.sign ')']).spelled

/-- Some tests are spelled out, with disjunction signs between them. -/
private theorem spelled_choices {choices : List HostExpr} (h : ∀ c ∈ choices, c.IsSpelled) :
    Spelled (joinWith " || " (choices.map matchesText)) (choiceTokens choices) := by
  refine ⟨isCode_joinWith (isCode_literal (by decide)) ?_, ?_⟩
  · exact List.forall_mem_map.mpr fun c hc => (spelled_matchesText (h c hc)).isCode
  · exact lexes_joinWith (by decide) (fun _ => breaks_cons.mpr (by decide))
      fun c hc => (spelled_matchesText (h c hc)).lexes

/-- A piece between two fixed texts. -/
theorem spelled_between (front : String) (fs : List Token) {text : String} {ts : List Token}
    (h : Spelled text ts) (back : String) (bs : List Token)
    (hfront : isFixed front fs = true := by decide +kernel)
    (hback : (isFixed back bs && isBreak back) = true := by decide +kernel) :
    Spelled (front ++ text ++ back) (fs ++ ts ++ bs) :=
  ((closed_fixed front fs hfront).slot h back bs hback).spelled

/-- A text is spelled out as any tokens that are the same. -/
theorem Spelled.congr {text : String} {ts us : List Token} (h : Spelled text ts) (heq : ts = us) :
    Spelled text us :=
  heq ▸ h

/-- A piece in front of a fixed text. -/
theorem Spelled.before {text : String} {ts : List Token} (h : Spelled text ts) (back : String)
    (bs : List Token) (hback : (isFixed back bs && isBreak back) = true := by decide +kernel) :
    Closed (text ++ back) (ts ++ bs) := by
  have hslot := (closed_fixed "" []).slot h back bs hback
  rwa [String.empty_append, List.nil_append] at hslot

/-- The message about an unknown process has no quotes and no backslashes. -/
theorem message_plain {unit : HostName} (h : unit.IsProper) :
    ∀ c ∈ unit.text.toList ++ " has no process \x7bindex\x7d".toList, c ≠ '"' ∧ c ≠ '\\' := by
  have hunit : ∀ c ∈ unit.text.toList, c ≠ '"' ∧ c ≠ '\\' := by
    intro c hc
    have hname : isNameChar c = true := List.all_eq_true.mp (Atom.name_text h).2 c hc
    constructor
    · rintro rfl
      exact absurd hname (by decide)
    · rintro rfl
      exact absurd hname (by decide)
  have hall : (" has no process \x7bindex\x7d".toList.all fun c => c ≠ '"' ∧ c ≠ '\\') = true := by
    decide
  have hmessage : ∀ c ∈ " has no process \x7bindex\x7d".toList, c ≠ '"' ∧ c ≠ '\\' :=
    fun c hc => by simpa using List.all_eq_true.mp hall c hc
  exact List.forall_mem_append.mpr ⟨hunit, hmessage⟩

/-- A message that names the unit, as a string. -/
theorem spelled_message {unit : HostName} (h : unit.IsProper) :
    Spelled ("\"" ++ unit.text ++ " has no process \x7bindex\x7d\"")
      [.quoted (unit.text.toList ++ " has no process \x7bindex\x7d".toList)] := by
  have hinside := scanned_plain (message_plain h) []
  have htext : ("\"" ++ unit.text ++ " has no process \x7bindex\x7d\"").toList =
      '"' :: (unit.text.toList ++ " has no process \x7bindex\x7d".toList) ++ ['"'] := by simp
  refine ⟨?_, fun cs _ => ?_⟩
  · rw [htext]
    exact isCode_string hinside
  · rw [htext]
    apply lex_append_closed
    have hquote : Scan.step .between '"' = ([], .quoted []) := rfl
    rw [List.cons_append, scanned, hquote, scanned_append, hinside]
    rfl

/-- The call for a process that does not exist is spelled out. -/
private theorem spelled_noProcess {unit : HostName} (h : unit.IsProper) :
    Spelled (Line.noProcess unit).text (Line.noProcess unit).tokens := by
  have hline := spelled_between "_ => unreachable!("
    [.word "_", .sign '=', .sign '>', .word "unreachable", .sign '!', .sign '(']
    (spelled_message h) ")," [.sign ')', .sign ',']
  have htext : "_ => unreachable!(" ++ ("\"" ++ unit.text ++ " has no process \x7bindex\x7d\"") ++
      ")," = (Line.noProcess unit).text := by
    apply String.toList_inj.mp
    unfold Line.text
    simp
  rw [htext] at hline
  exact hline

/-- A line of code has its tokens. -/
theorem Line.spelled {l : Line} (h : l.Legible) (hcode : ∀ mark text, l ≠ .comment mark text) :
    Spelled l.text l.tokens := by
  cases l with
  | comment mark text => exact absurd rfl (hcode mark text)
  | verbatim text =>
      obtain rfl : text = "" := h
      exact (closed_fixed "" []).spelled
  | useModule path module => exact h.elim
  | close | closeField | newFn | letModel | selfValue | modelFn | initBodyFn | runProcessFn
  | matchIndex | condTrue | condFalse | condFalseEmpty | condInvalid | condInvalidEmpty
  | bareBlock | ifSelectorInvalid | elseBlock => exact (closed_fixed _ _).spelled
  | modelRef =>
      have hmodel : (HostName.plain "model").IsProper := by decide
      exact (closed_fixed "&mut self."
        [.sign '&', .word "mut", .word "self", .sign '.']).last hmodel.spelled
  | structDecl name =>
      exact spelled_between "pub struct " [.word "pub", .word "struct"]
        (HostName.IsProper.spelled h) " \x7b" [.sign '\x7b']
  | fieldDecl name type =>
      have hname := (closed_fixed "pub " [.word "pub"]).slot h.1.spelled ": " [.sign ':']
      exact (hname.slot h.2.spelled "," [.sign ',']).spelled
  | implBlock unit =>
      exact spelled_between "impl " [.word "impl"] (HostName.IsProper.spelled h)
        " \x7b" [.sign '\x7b']
  | typeFn name =>
      exact spelled_between "pub fn " [.word "pub", .word "fn"]
        (HostName.IsProper.spelled h) "() -> HdlType \x7b"
        [.sign '(', .sign ')', .sign '-', .sign '>', .word "HdlType", .sign '\x7b']
  | result value => exact h
  | letConst name value =>
      exact ((closed_fixed "let " [.word "let"]).slot h.1.spelled ": HdlValue = "
        [.sign ':', .word "HdlValue", .sign '=']).slot h.2 ";" [.sign ';'] |>.spelled
  | letProxy name label type init =>
      have hname := (closed_fixed "let " [.word "let"]).slot h.1.spelled
        " = SimProxy::new(sim, &model, "
        [.sign '=', .word "SimProxy", .sign ':', .sign ':', .word "new", .sign '(', .word "sim",
          .sign ',', .sign '&', .word "model", .sign ',']
      have htype := (hname.slot (spelled_quote label) ", " [.sign ',']).slot h.2.1
        ", " [.sign ',']
      exact (htype.slot (spelled_init h.2.2) ");" [.sign ')', .sign ';']).spelled
  | letUnit name module label =>
      have hname := (closed_fixed "let " [.word "let"]).slot h.1.spelled " = "
        [.sign '=']
      have hmodule := hname.slot h.2.spelled "::new(sim, "
        [.sign ':', .sign ':', .word "new", .sign '(', .word "sim", .sign ',']
      exact (hmodule.slot (spelled_quote label) ");" [.sign ')', .sign ';']).spelled
  | fieldInit name => exact ((HostName.IsProper.spelled h).before "," [.sign ',']).spelled
  | ioValue io =>
      exact spelled_between "io: " [.word "io", .sign ':'] (HostName.IsProper.spelled h)
        " \x7b" [.sign '\x7b']
  | emptyIoValue io =>
      exact spelled_between "io: " [.word "io", .sign ':'] (HostName.IsProper.spelled h)
        " \x7b\x7d," [.sign '\x7b', .sign '\x7d', .sign ',']
  | simUnitImpl unit =>
      exact spelled_between "impl SimUnit for " [.word "impl", .word "SimUnit", .word "for"]
        (HostName.IsProper.spelled h) " \x7b" [.sign '\x7b']
  | connect signal unit port =>
      have hsignal := (closed_fixed "connect_sim_port(&"
        [.word "connect_sim_port", .sign '(', .sign '&']).slot h.1 ", &mut self."
        [.sign ',', .sign '&', .word "mut", .word "self", .sign '.']
      have hunit := hsignal.slot h.2.1.spelled ".io." [.sign '.', .word "io", .sign '.']
      have hport := hunit.slot h.2.2.spelled ");" [.sign ')', .sign ';']
      exact hport.spelled.congr (by simp [tokens, memberTokens])
  | setInterfaces signals =>
      have hline := spelled_between "self.model.set_interfaces(vec!["
        (registerTokens "set_interfaces" ++ [Token.word "vec", .sign '!', .sign '['])
        (spelled_texts h) "]);" [.sign ']', .sign ')', .sign ';']
      exact hline.congr (by simp [tokens, vecTokens])
  | setProcesses labels =>
      exact spelled_between "self.model.set_processes(&["
        (registerTokens "set_processes" ++ [Token.sign '&', .sign '['])
        (spelled_commaList fun label _ => spelled_quote label) "]);"
        [.sign ']', .sign ')', .sign ';']
  | setUnits units =>
      have hline := spelled_between "self.model.set_units(vec!["
        (registerTokens "set_units" ++ [Token.word "vec", .sign '!', .sign '['])
        (spelled_texts h) "]);" [.sign ']', .sign ')', .sign ';']
      exact hline.congr (by simp [tokens, vecTokens])
  | setSensitivity label triggers =>
      have hlabel := (closed_fixed "self.model.set_sensitivity("
        (registerTokens "set_sensitivity")).slot (spelled_quote label) ", vec!["
        [.sign ',', .word "vec", .sign '!', .sign '[']
      have htriggers := spelled_commaList fun t ht => HostTrigger.spelled (h t ht)
      have hline := hlabel.slot htriggers "]);" [.sign ']', .sign ')', .sign ';']
      exact hline.spelled.congr (by simp [tokens, vecTokens, Token.str])
  | setOutputs label signals =>
      have hlabel := (closed_fixed "self.model.set_outputs("
        (registerTokens "set_outputs")).slot (spelled_quote label) ", vec!["
        [.sign ',', .word "vec", .sign '!', .sign '[']
      have hline := hlabel.slot (spelled_texts h) "]);" [.sign ']', .sign ')', .sign ';']
      exact hline.spelled.congr (by simp [tokens, vecTokens, Token.str])
  | initUnit unit =>
      exact spelled_between "self." [.word "self", .sign '.']
        (HostName.IsProper.spelled h) ".init_body();"
        [.sign '.', .word "init_body", .sign '(', .sign ')', .sign ';']
  | dispatch index process =>
      have hindex := (spelled_natText index).before " => self."
        [.sign '=', .sign '>', .word "self", .sign '.']
      exact (hindex.slot (HostName.IsProper.spelled h) "(),"
        [.sign '(', .sign ')', .sign ',']).spelled
  | noProcess unit => exact spelled_noProcess h
  | processFn name =>
      exact spelled_between "pub fn " [.word "pub", .word "fn"]
        (HostName.IsProper.spelled h) "(&mut self) \x7b"
        ([Token.sign '('] ++ receiverTokens ++ [Token.sign ')', .sign '\x7b'])
  | write proxy value =>
      have hline := (h.1.before ".write(" [.sign '.', .word "write", .sign '(']).slot
        h.2 ");" [.sign ')', .sign ';']
      exact hline.spelled
  | writeAt proxy index value =>
      have hindex := (h.1.before ".write_at(" [.sign '.', .word "write_at", .sign '(']).slot
        h.2.1 ", " [.sign ',']
      have hline := hindex.slot h.2.2 ");" [.sign ')', .sign ';']
      exact hline.spelled.congr (by simp [tokens, callTokens, commaTokens, joinTokens])
  | writeSlice proxy high low value =>
      have hhigh := (h.1.before ".write_slice(" [.sign '.', .word "write_slice", .sign '(']).slot
        h.2.1 ", " [.sign ',']
      have hline := (hhigh.slot h.2.2.1 ", " [.sign ',']).slot h.2.2.2 ");"
        [.sign ')', .sign ';']
      exact hline.spelled.congr (by simp [tokens, callTokens, commaTokens, joinTokens])
  | writeInvalid proxy =>
      have hline := Spelled.before h ".write_invalid();"
        [.sign '.', .word "write_invalid", .sign '(', .sign ')', .sign ';']
      exact hline.spelled.congr (by simp [tokens, callTokens, commaTokens, joinTokens])
  | matchCond condition =>
      exact spelled_between "match sim_eval_cond("
        [.word "match", .word "sim_eval_cond", .sign '('] h ") \x7b"
        [.sign ')', .sign '\x7b']
  | letSelector selector =>
      exact spelled_between "let sel = " [.word "let", .word "sel", .sign '='] h ";"
        [.sign ';']
  | elseIfMatches choices =>
      exact spelled_between "\x7d else if " [.sign '\x7d', .word "else", .word "if"]
        (spelled_choices h) " \x7b" [.sign '\x7b']

/-! ### From the text of steps to their tokens -/

/-- The tokens of the lines that steps write. -/
def stepTokens (steps : List Step) : List Token := (writtenLines steps).flatMap Line.tokens

@[simp] theorem stepTokens_nil : stepTokens [] = [] := rfl

/-- The tokens of two runs in a row. -/
@[simp] theorem stepTokens_append (front back : List Step) :
    stepTokens (front ++ back) = stepTokens front ++ stepTokens back := by
  rw [stepTokens, writtenLines_append, List.flatMap_append]
  rfl

/-- A command has the tokens of its line. -/
@[simp] theorem stepTokens_write (command : Command Line) (rest : List Step) :
    stepTokens (.write command :: rest) = command.written.tokens ++ stepTokens rest := by
  rw [stepTokens, writtenLines_write, List.flatMap_cons]
  rfl

@[simp] theorem stepTokens_log (event : Event) (rest : List Step) :
    stepTokens (.log event :: rest) = stepTokens rest := rfl

@[simp] theorem stepTokens_mark (mark : Mark) (rest : List Step) :
    stepTokens (.mark mark :: rest) = stepTokens rest := rfl

/-- A line with its indentation has the tokens of the line. -/
theorem Line.codeTokens_indented {l : Line} (h : l.Legible) (level : Nat) (cs : List Char) :
    codeTokens (indented level l.text ++ cs) = (codeTokens cs).map (l.tokens ++ ·) := by
  cases l with
  | comment mark text =>
      have hcomment := codeTokens_comment mark h level cs
      refine hcomment.trans ?_
      simp [tokens]
  | _ =>
      refine (Line.spelled h ?_).codeTokens_indented level cs
      intro mark text heq
      cases heq

/-- **From text to tokens.**  The text of steps that write legible lines has the tokens of these
lines, at every level of indentation. -/
theorem codeTokens_rendered {steps : List Step} (h : ∀ l ∈ writtenLines steps, l.Legible)
    (level : Nat) (cs : List Char) :
    codeTokens (rendered level steps ++ cs) = (codeTokens cs).map (stepTokens steps ++ ·) := by
  induction steps generalizing level with
  | nil => simp [rendered]
  | cons step rest ih =>
      cases step with
      | write command =>
          obtain ⟨hfirst, hrest⟩ := List.forall_mem_cons.mp h
          obtain ⟨k, hchars⟩ := command.chars_eq level
          rw [rendered, hchars, List.append_assoc, Line.codeTokens_indented hfirst, ih hrest,
            stepTokens_write]
          simp [Function.comp_def]
      | log event => exact ih h level
      | mark m => exact ih h level

end HdlSim
