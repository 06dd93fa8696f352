import HdlSim.Proofs.Mirror
import HdlSim.Proofs.Program
import HdlSim.Proofs.Rendering
import HdlSim.Proofs.Statements

/-!
# Host programs for process bodies

The steps of a script are first taken to the tokens of their text, which do not depend on the
indentation (`Tokenizes`), and the tokens to a host program (`Emits`).  `BlockMirrors` relates
statements to the host program that stands for them, constructor by constructor, and says nothing
about text.

Main statement: what is written for the statements of a process is a host program that mirrors them
(`Site.block_emits`).
-/

namespace HdlSim

open HostExpr

/-! ### From steps to tokens -/

/-- The text of the steps has these tokens, at every level of indentation. -/
def Tokenizes (steps : List Step) (ts : List Token) : Prop :=
  ∀ level cs, lex (rendered level steps ++ cs) = (lex cs).map (ts ++ ·)

/-- No steps have no tokens. -/
theorem tokenizes_nil : Tokenizes [] [] := by
  intro level cs
  simp [rendered]

/-- The text of two runs in a row, the second at the level where the first ends. -/
private theorem rendered_append (level : Nat) (front back : List Step) :
    ∃ level', rendered level (front ++ back) = rendered level front ++ rendered level' back := by
  induction front generalizing level with
  | nil => exact ⟨level, rfl⟩
  | cons step front ih =>
      cases step with
      | write command =>
          obtain ⟨level', hrest⟩ := ih (command.levelAfter level)
          exact ⟨level', by simp [rendered, hrest]⟩
      | log event => exact ih level
      | mark m => exact ih level

/-- The tokens of two runs in a row. -/
theorem Tokenizes.append {front back : List Step} {ts us : List Token} (hfront : Tokenizes front ts)
    (hback : Tokenizes back us) : Tokenizes (front ++ back) (ts ++ us) := by
  intro level cs
  obtain ⟨level', hform⟩ := rendered_append level front back
  rw [hform, List.append_assoc, hfront, hback]
  simp [Function.comp_def]

/-- A line with its indentation has the tokens of its text. -/
private theorem lex_indented {text : String} {ts : List Token} (h : Lexes text.toList ts)
    (level : Nat) (cs : List Char) : lex (indented level text ++ cs) = (lex cs).map (ts ++ ·) := by
  have hline := h ('\n' :: cs) (breaks_cons.mpr (by decide))
  unfold indented
  split
  · rename_i hempty
    have hnil : text.toList = [] := by simpa using hempty
    rw [hnil] at hline
    simpa using hline
  · rw [List.append_assoc, List.append_assoc, lex_replicate_space, List.singleton_append, hline,
      lex_newline]

/-- A step that writes a line has the tokens of the line. -/
theorem tokenizes_write {command : Command Line} {ts : List Token} {l : Line}
    (hcommand : command = .line l ∨ command = .enter l ∨ command = .leave l ∨ command = .turn l)
    (h : Lexes l.text.toList ts) : Tokenizes [.write command] ts := by
  intro level cs
  rcases hcommand with rfl | rfl | rfl | rfl
  all_goals
    simp only [rendered, Command.map, Command.chars, List.append_nil]
    exact lex_indented h _ cs

/-- A line has the tokens of its text. -/
theorem tokenizes_line {l : Line} {ts : List Token} (h : Lexes l.text.toList ts) :
    Tokenizes [.write (.line l)] ts :=
  tokenizes_write (.inl rfl) h

/-- A line that begins a block has the tokens of its text. -/
theorem tokenizes_enter {l : Line} {ts : List Token} (h : Lexes l.text.toList ts) :
    Tokenizes [.write (.enter l)] ts :=
  tokenizes_write (.inr (.inl rfl)) h

/-- A line between two blocks has the tokens of its text. -/
theorem tokenizes_turn {l : Line} {ts : List Token} (h : Lexes l.text.toList ts) :
    Tokenizes [.write (.turn l)] ts :=
  tokenizes_write (.inr (.inr (.inr rfl))) h

/-- A text between two others that leave no word open. -/
theorem lexes_between (front back : String) (fs bs : List Token) {text : String} {ts : List Token}
    (hfront : scanned .between front.toList = (fs, .between)) (h : Lexes text.toList ts)
    (hback : scanned .between back.toList = (bs, .between))
    (hbreak : ∀ cs, Breaks (back.toList ++ cs)) :
    Lexes (front ++ text ++ back).toList (fs ++ ts ++ bs) := by
  intro cs _
  have htext : (front ++ text ++ back).toList ++ cs =
      front.toList ++ (text.toList ++ (back.toList ++ cs)) := by simp
  rw [htext, lex_append_closed hfront, h _ (hbreak cs), lex_append_closed hback]
  simp [Function.comp_def]

/-- A text that leaves no word open has its tokens wherever it stands. -/
theorem lexes_closed {text : String} {ts : List Token}
    (h : scanned .between text.toList = (ts, .between)) : Lexes text.toList ts :=
  fun cs _ => lex_append_closed h cs

/-- The end of a block is a closing brace. -/
theorem tokenizes_leave : Tokenizes [.write (.leave .close)] [.sign '\x7d'] :=
  tokenizes_write (.inr (.inr (.inl rfl))) (lexes_closed (by decide))

/-- The test against a choice has its tokens. -/
private theorem matchesText_lexes {c : HostExpr} (hc : Operand c) :
    Lexes (matchesText c).toList (testTokens c) :=
  lexes_between "sel.matches(&" ")" _ [.sign ')'] (by decide) hc.lexes (by decide)
    (fun _ => breaks_cons.mpr (by decide))

/-! ### From tokens to host programs -/

/-- The steps write this host program. -/
def Emits (steps : List Step) (prog : List HostStmt) : Prop :=
  ∃ ns, Tokenizes steps (nodeTokens ns) ∧ PlainNodes ns ∧ HostStmt.ofNodes ns = some prog

/-- What has been written is read back. -/
theorem Emits.read {steps : List Step} {prog : List HostStmt} (h : Emits steps prog)
    (level : Nat) : HostStmt.read (rendered level steps) = some prog := by
  obtain ⟨ns, htokens, hplain, hread⟩ := h
  have hlex : lex (rendered level steps) = some (nodeTokens ns) := by
    simpa using htokens level []
  simp [HostStmt.read, hlex, nest_nodeTokens hplain, hread]

/-- No steps are no program. -/
theorem emits_nil : Emits [] [] := ⟨[], tokenizes_nil, trivial, rfl⟩

/-- The program of two runs in a row. -/
theorem Emits.append {front back : List Step} {p q : List HostStmt} (hfront : Emits front p)
    (hback : Emits back q) : Emits (front ++ back) (p ++ q) := by
  obtain ⟨ns, hns, hplain, hread⟩ := hfront
  obtain ⟨ms, hms, hplain', hread'⟩ := hback
  refine ⟨ns ++ ms, ?_, plainNodes_append hplain hplain', HostStmt.ofNodes_append hread hread'⟩
  rw [nodeTokens_append]
  exact hns.append hms

/-- The lines that perform an action, with the call on each and the statement that it is. -/
inductive ActionLine : Line → HostExpr → HostStmt → Prop
  | write (p v : HostExpr) : ActionLine (.write p v) (.method p "write" [v]) (.write p v)
  | writeAt (p i v : HostExpr) :
      ActionLine (.writeAt p i v) (.method p "write_at" [i, v]) (.writeAt p i v)
  | writeSlice (p h l v : HostExpr) :
      ActionLine (.writeSlice p h l v) (.method p "write_slice" [h, l, v]) (.writeSlice p h l v)
  | writeInvalid (p : HostExpr) :
      ActionLine (.writeInvalid p) (.method p "write_invalid" []) (.writeInvalid p)

/-- The text of such a line is the call and a semicolon. -/
theorem ActionLine.text_eq {l : Line} {e : HostExpr} {st : HostStmt} (h : ActionLine l e st) :
    l.text = e.text ++ ";" := by
  apply String.toList_inj.mp
  cases h with
  | write p v =>
      show (p.text ++ ".write(" ++ v.text ++ ");").toList =
        (p.text ++ "." ++ "write" ++ "(" ++ v.text ++ ")" ++ ";").toList
      simp
  | writeAt p i v =>
      show (p.text ++ ".write_at(" ++ i.text ++ ", " ++ v.text ++ ");").toList =
        (p.text ++ "." ++ "write_at" ++ "(" ++ (i.text ++ ", " ++ v.text) ++ ")" ++ ";").toList
      simp
  | writeSlice p h l v =>
      show (p.text ++ ".write_slice(" ++ h.text ++ ", " ++ l.text ++ ", " ++ v.text ++
          ");").toList =
        (p.text ++ "." ++ "write_slice" ++ "(" ++ (h.text ++ ", " ++ (l.text ++ ", " ++ v.text)) ++
          ")" ++ ";").toList
      simp
  | writeInvalid p =>
      show (p.text ++ ".write_invalid();").toList =
        (p.text ++ "." ++ "write_invalid" ++ "(" ++ "" ++ ")" ++ ";").toList
      simp

/-- A line that performs an action. -/
theorem ActionLine.emits {l : Line} {e : HostExpr} {st : HostStmt} (h : ActionLine l e st)
    (he : Operand e) : Emits [.write (.line l)] [st] := by
  have hline : Lexes l.text.toList (e.tokens ++ [Token.sign ';']) := by
    have hbetween := lexes_between "" ";" [] [.sign ';'] (by decide) he.lexes (by decide)
      (fun _ => breaks_cons.mpr (by decide))
    simpa [h.text_eq] using hbetween
  have hst : HostStmt.ofExpr e = some st := by cases h <;> rfl
  refine ⟨[.simple e.tokens], ?_, ⟨he.derives.plain, trivial⟩, ?_⟩
  · simpa [nodeTokens, Node.tokens] using tokenizes_line hline
  · simp [HostStmt.ofNodes, HostStmt.ofNode_simple he hst]

/-- The steps write the arm for an outcome of a condition. -/
def EmitsArm (outcome : String) (steps : List Step) (prog : List HostStmt) : Prop :=
  ∃ ns, Tokenizes steps (Node.block (outcomeHead outcome) ns).tokens ∧ PlainNodes ns ∧
    HostStmt.ofNodes ns = some prog

/-- An arm with a body. -/
theorem emitsArm_block {outcome : String} {l : Line} {steps : List Step}
    {prog : List HostStmt} (hl : Lexes l.text.toList (outcomeHead outcome ++ [Token.sign '\x7b']))
    (h : Emits steps prog) :
    EmitsArm outcome (.write (.enter l) :: steps ++ [Step.write (.leave .close)]) prog := by
  obtain ⟨ns, hns, hplain, hread⟩ := h
  refine ⟨ns, ?_, hplain, hread⟩
  have harm := ((tokenizes_enter hl).append hns).append tokenizes_leave
  simpa [Node.tokens] using harm

/-- An arm without one. -/
theorem emitsArm_empty {outcome : String} {l : Line}
    (hl : Lexes l.text.toList (outcomeHead outcome ++ [Token.sign '\x7b', .sign '\x7d'])) :
    EmitsArm outcome [.write (.line l)] [] :=
  ⟨[], by simpa [Node.tokens, nodeTokens] using tokenizes_line hl, trivial, rfl⟩

/-- The line that begins a match on a condition. -/
theorem matchCond_lexes {c : HostExpr} (hc : Operand c) :
    Lexes (Line.matchCond c).text.toList
      (.word "match" :: (HostExpr.call (.plain "sim_eval_cond") [c]).tokens ++
        [Token.sign '\x7b']) := by
  have hcall : Operand (.call (.plain "sim_eval_cond") [c]) :=
    .call (by decide) (by simp [hc])
  have hline := lexes_between "match " " \x7b" [.word "match"] [.sign '\x7b'] (by decide)
    hcall.lexes (by decide) (fun _ => breaks_cons.mpr (by decide))
  have hfront : "match " ++ ("sim_eval_cond" ++ "(") = "match sim_eval_cond(" := by decide
  have hback : ")" ++ " \x7b" = ") \x7b" := by decide
  have htext : "match " ++ (HostExpr.call (.plain "sim_eval_cond") [c]).text ++ " \x7b" =
      "match sim_eval_cond(" ++ c.text ++ ") \x7b" := by
    have hcond : (HostExpr.call (.plain "sim_eval_cond") [c]).text =
        "sim_eval_cond" ++ "(" ++ c.text ++ ")" := rfl
    rw [hcond, ← hfront, ← hback]
    simp only [String.append_assoc]
  rw [htext] at hline
  exact hline

/-- The tokens of an operand are the operand. -/
theorem whole_tokens {e : HostExpr} (he : Operand e) : whole e.tokens = some e :=
  whole_eq_some_iff.mpr (he.derives.looser (Nat.zero_le _))

/-- A match on a condition. -/
theorem emits_matchCond {c : HostExpr} {ts fs is : List Step} {t f i : List HostStmt}
    (hc : Operand c) (ht : EmitsArm "True" ts t) (hf : EmitsArm "False" fs f)
    (hi : EmitsArm "Invalid" is i) :
    Emits (.write (.enter (.matchCond c)) :: (ts ++ fs ++ is) ++ [Step.write (.leave .close)])
      [.matchCond c t f i] := by
  obtain ⟨tn, htn, htplain, htread⟩ := ht
  obtain ⟨fn, hfn, hfplain, hfread⟩ := hf
  obtain ⟨is', hin, hiplain, hiread⟩ := hi
  have hcall : Operand (.call (.plain "sim_eval_cond") [c]) :=
    .call (by decide) (by simp [hc])
  have houtcome : ∀ o, Plain (outcomeHead o) := by simp [Plain, outcomeHead]
  refine ⟨[.block (.word "match" :: (HostExpr.call (.plain "sim_eval_cond") [c]).tokens)
    [.block (outcomeHead "True") tn, .block (outcomeHead "False") fn,
      .block (outcomeHead "Invalid") is']], ?_, ?_, ?_⟩
  · have hmatch := ((tokenizes_enter (matchCond_lexes hc)).append
      ((htn.append hfn).append hin)).append tokenizes_leave
    simpa [nodeTokens, Node.tokens] using hmatch
  · have hhead := plain_append (plain_word "match") hcall.derives.plain
    exact ⟨⟨hhead, ⟨houtcome _, htplain⟩, ⟨houtcome _, hfplain⟩, ⟨houtcome _, hiplain⟩, trivial⟩,
      trivial⟩
  · have hcondition : conditionOf (.call (.plain "sim_eval_cond") [c]) = some c := rfl
    simp [HostStmt.ofNodes, HostStmt.ofNode, whole_tokens hcall, hcondition, htread, hfread, hiread]

/-- The steps write arms of a selection behind what stands before them: the first line closes the
block before it, and the last block is left open. -/
def EmitsChain (steps : List Step) (arms : List HostArm) (otherwise : Option (List HostStmt)) :
    Prop :=
  ∃ ts ns, Tokenizes steps ts ∧ ts ++ [.sign '\x7d'] = .sign '\x7d' :: nodeTokens ns ∧
    PlainNodes ns ∧ HostStmt.ofChain ns = some (arms, otherwise)

/-- A chain of tests may end with nothing. -/
private theorem emitsChain_nil : EmitsChain [] [] none :=
  ⟨[], [], tokenizes_nil, rfl, trivial, rfl⟩

/-- A chain of tests may end with a default. -/
private theorem emitsChain_default {steps : List Step} {prog : List HostStmt}
    (h : Emits steps prog) :
    EmitsChain (.write (.turn .elseBlock) :: steps) [] (some prog) := by
  obtain ⟨ns, hns, hplain, hread⟩ := h
  have hline : Lexes (Line.elseBlock).text.toList
      [.sign '\x7d', .word "else", .sign '\x7b'] := lexes_closed (by decide)
  refine ⟨_, [.block [.word "else"] ns], (tokenizes_turn hline).append hns, ?_,
    ⟨⟨plain_word _, hplain⟩, trivial⟩, ?_⟩
  · simp [nodeTokens, Node.tokens]
  · simp [HostStmt.ofChain, hread]

/-- The line that begins an arm. -/
theorem elseIfMatches_lexes {choices : List HostExpr} (hchoices : ∀ c ∈ choices, Operand c) :
    Lexes (Line.elseIfMatches choices).text.toList
      (.sign '\x7d' :: .word "else" :: .word "if" :: choiceTokens choices ++
        [Token.sign '\x7b']) := by
  have hjoin : Lexes (Text.joinWith " || " (choices.map matchesText)).toList
      (choiceTokens choices) :=
    lexes_joinWith (by decide) (fun _ => breaks_cons.mpr (by decide))
      fun c hc => matchesText_lexes (hchoices c hc)
  exact lexes_between "\x7d else if " " \x7b" [.sign '\x7d', .word "else", .word "if"]
    [.sign '\x7b'] (by decide) hjoin (by decide) (fun _ => breaks_cons.mpr (by decide))

/-- One more test in front of a chain. -/
private theorem emitsChain_arm {choices : List HostExpr} {body rest : List Step}
    {prog : List HostStmt} {arms : List HostArm} {otherwise : Option (List HostStmt)}
    (hne : choices ≠ []) (hchoices : ∀ c ∈ choices, Operand c) (hbody : Emits body prog)
    (hrest : EmitsChain rest arms otherwise) :
    EmitsChain (.write (.turn (.elseIfMatches choices)) :: (body ++ rest))
      (⟨choices, prog⟩ :: arms) otherwise := by
  obtain ⟨ns, hns, hplain, hread⟩ := hbody
  obtain ⟨ts, ms, hts, hform, hplain', hread'⟩ := hrest
  refine ⟨_, .block (.word "else" :: .word "if" :: choiceTokens choices) ns :: ms,
    (tokenizes_turn (elseIfMatches_lexes hchoices)).append (hns.append hts), ?_, ?_, ?_⟩
  · simp [nodeTokens, Node.tokens, hform]
  · have hhead := plain_append (by decide : Plain [.word "else", .word "if"])
      (plain_choiceTokens hchoices)
    exact ⟨⟨hhead, hplain⟩, hplain'⟩
  · simp [HostStmt.ofChain, choicesOf_choiceTokens hne hchoices, hread, hread']

/-- A selection. -/
theorem emits_select {selector : HostExpr} {is cs : List Step} {onInvalid : List HostStmt}
    {arms : List HostArm} {otherwise : Option (List HostStmt)} (hselector : Operand selector)
    (hinvalid : Emits is onInvalid) (hchain : EmitsChain cs arms otherwise) :
    Emits
      ([Step.write (.enter .bareBlock), .write (.line (.letSelector selector)),
          .write (.enter .ifSelectorInvalid)] ++ is ++ cs ++
        [Step.write (.leave .close), .write (.leave .close)])
      [.select selector onInvalid arms otherwise] := by
  obtain ⟨ns, hns, hplain, hread⟩ := hinvalid
  obtain ⟨ts, ms, hts, hform, hplain', hread'⟩ := hchain
  have hbare : Lexes (Line.bareBlock).text.toList [.sign '\x7b'] := lexes_closed (by decide)
  have hlet : Lexes (Line.letSelector selector).text.toList
      (.word "let" :: .word "sel" :: .sign '=' :: selector.tokens ++ [Token.sign ';']) :=
    lexes_between "let sel = " ";" [.word "let", .word "sel", .sign '='] [.sign ';'] (by decide)
      hselector.lexes (by decide) (fun _ => breaks_cons.mpr (by decide))
  have htest : Lexes (Line.ifSelectorInvalid).text.toList (invalidHead ++ [Token.sign '\x7b']) :=
    lexes_closed (by decide)
  refine ⟨[.block [] (.simple (.word "let" :: .word "sel" :: .sign '=' :: selector.tokens) ::
    .block invalidHead ns :: ms)], ?_, ?_, ?_⟩
  · have hall := ((((tokenizes_enter hbare).append (tokenizes_line hlet)).append
      (tokenizes_enter htest)).append (hns.append hts)).append
        (tokenizes_leave.append tokenizes_leave)
    have htokens : nodeTokens [.block [] (.simple (.word "let" :: .word "sel" :: .sign '=' ::
        selector.tokens) :: .block invalidHead ns :: ms)] =
        [Token.sign '\x7b'] ++ (.word "let" :: .word "sel" :: .sign '=' :: selector.tokens ++
          [Token.sign ';']) ++ (invalidHead ++ [Token.sign '\x7b']) ++ (nodeTokens ns ++ ts) ++
          ([Token.sign '\x7d'] ++ [Token.sign '\x7d']) := by
      have hrest : ts ++ [Token.sign '\x7d', .sign '\x7d'] =
          .sign '\x7d' :: (nodeTokens ms ++ [Token.sign '\x7d']) := by
        rw [List.append_cons, hform]
        rfl
      simp [nodeTokens, Node.tokens, hrest]
    rw [htokens]
    simpa using hall
  · have hhead : Plain (.word "let" :: .word "sel" :: .sign '=' :: selector.tokens) :=
      plain_append (by decide : Plain [.word "let", .word "sel", .sign '=']) hselector.derives.plain
    exact ⟨⟨by simp [Plain], hhead, ⟨by decide, hplain⟩, hplain'⟩, trivial⟩
  · simp [HostStmt.ofNodes, HostStmt.ofNode, whole_tokens hselector, hread, hread']

/-! ### Programs that mirror statements -/

/-- The statements make the signals invalid, in order. -/
inductive Invalidates (s : Site) : List Ident → List HostStmt → Prop
  | nil : Invalidates s [] []
  | cons {n : Ident} {p : HostExpr} {ns : List Ident} {prog : List HostStmt}
      (hp : s.proxyOf n = .ok p) (hrest : Invalidates s ns prog) :
      Invalidates s (n :: ns) (.writeInvalid p :: prog)

mutual

/-- **The host program mirrors the statement.** -/
inductive StmtMirrors (s : Site) : Stmt → List HostStmt → Prop
  | write {n : Ident} {value : Expr} {p v : HostExpr} (hp : s.proxyOf n = .ok p)
      (hv : s.value value = .ok v) : StmtMirrors s (.assign (.name n) value) [.write p v]
  | writeAt {n : Ident} {index value : Expr} {p i v : HostExpr} (hp : s.proxyOf n = .ok p)
      (hi : s.value index = .ok i) (hv : s.value value = .ok v) :
      StmtMirrors s (.assign (.index (.name n) index) value) [.writeAt p i v]
  | writeSlice {n : Ident} {high low value : Expr} {p h l v : HostExpr}
      (hp : s.proxyOf n = .ok p) (hh : s.value high = .ok h) (hl : s.value low = .ok l)
      (hv : s.value value = .ok v) :
      StmtMirrors s (.assign (.slice (.name n) high low) value) [.writeSlice p h l v]
  | ifElse {branches : List IfBranch} {elseBody : Option (List Stmt)} {st : HostStmt}
      (hbranches : BranchesMirror s elseBody branches st) :
      StmtMirrors s (.ifElse branches elseBody) [st]
  | case {selector : Expr} {arms : List CaseArm} {default : Option (List Stmt)} {sel : HostExpr}
      {onInvalid : List HostStmt} {hostArms : List HostArm} {otherwise : Option (List HostStmt)}
      (hsel : s.value selector = .ok sel)
      (hinvalid : Invalidates s (optionTargets default (armTargets arms [])) onInvalid)
      (harms : ArmsMirror s arms hostArms) (hdefault : OptionMirrors s default otherwise) :
      StmtMirrors s (.case selector arms default) [.select sel onInvalid hostArms otherwise]
  | block {body : List Stmt} {prog : List HostStmt} (hbody : BlockMirrors s body prog) :
      StmtMirrors s (.block body) prog
  | null : StmtMirrors s .null []

/-- The same of statements in order. -/
inductive BlockMirrors (s : Site) : List Stmt → List HostStmt → Prop
  | nil : BlockMirrors s [] []
  | cons {first : Stmt} {rest : List Stmt} {p q : List HostStmt} (hfirst : StmtMirrors s first p)
      (hrest : BlockMirrors s rest q) : BlockMirrors s (first :: rest) (p ++ q)

/-- The same of a body that may be absent. -/
inductive OptionMirrors (s : Site) : Option (List Stmt) → Option (List HostStmt) → Prop
  | none : OptionMirrors s none none
  | some {body : List Stmt} {prog : List HostStmt} (hbody : BlockMirrors s body prog) :
      OptionMirrors s (some body) (some prog)

/-- The match mirrors the branches of an if statement and the else body behind them. -/
inductive BranchesMirror (s : Site) : Option (List Stmt) → List IfBranch → HostStmt → Prop
  | last {elseBody : Option (List Stmt)} {condition : Expr} {body : List Stmt} {c : HostExpr}
      {onTrue onInvalid : List HostStmt} {onFalse : Option (List HostStmt)}
      (hc : s.value condition = .ok c) (hbody : BlockMirrors s body onTrue)
      (helse : OptionMirrors s elseBody onFalse)
      (hinvalid : Invalidates s (optionTargets elseBody (branchTargets [⟨condition, body⟩] []))
        onInvalid) :
      BranchesMirror s elseBody [⟨condition, body⟩]
        (.matchCond c onTrue (onFalse.getD []) onInvalid)
  | more {elseBody : Option (List Stmt)} {condition : Expr} {body : List Stmt}
      {rest : List IfBranch} {c : HostExpr} {onTrue onInvalid : List HostStmt} {next : HostStmt}
      (hc : s.value condition = .ok c) (hbody : BlockMirrors s body onTrue)
      (hrest : BranchesMirror s elseBody rest next)
      (hinvalid : Invalidates s (optionTargets elseBody (branchTargets (⟨condition, body⟩ :: rest)
        [])) onInvalid) :
      BranchesMirror s elseBody (⟨condition, body⟩ :: rest) (.matchCond c onTrue [next] onInvalid)

/-- The arms of a selection mirror those of a case statement. -/
inductive ArmsMirror (s : Site) : List CaseArm → List HostArm → Prop
  | nil : ArmsMirror s [] []
  | cons {choices : List Expr} {values : List HostExpr} {body : List Stmt} {prog : List HostStmt}
      {rest : List CaseArm} {others : List HostArm} (hvalues : s.values choices = .ok values)
      (hbody : BlockMirrors s body prog) (hrest : ArmsMirror s rest others) :
      ArmsMirror s (⟨choices, body⟩ :: rest) (⟨values, prog⟩ :: others)

end

namespace Site

variable {s : Site}

/-- The value of an expression is an operand. -/
theorem operand_of_value {e : Expr} {h : HostExpr} (hvalue : s.value e = .ok h) :
    Operand h :=
  (value_mirrors hvalue).operand

/-- The proxy of a name is an operand, and so is what is assigned to. -/
theorem operand_of_proxyOf {n : Ident} {h : HostExpr} (hproxy : s.proxyOf n = .ok h) :
    Operand h :=
  (proxyOf_eq_ok_iff.mp hproxy).2.operand

private theorem values_ne_nil {choices : List Expr} {values : List HostExpr}
    (h : s.values choices = .ok values) (hne : choices ≠ []) : values ≠ [] := by
  cases values_mirror h with
  | nil => exact absurd rfl hne
  | cons ha has => simp

/-! ### What is written mirrors the statements -/

/-- An assignment is a write of the whole signal, of one index or of one slice. -/
theorem assign_emits {target value : Expr} {steps : List Step}
    (h : (s.stmt (.assign target value)).Yields steps ()) :
    ∃ prog, Emits steps prog ∧ StmtMirrors s (.assign target value) prog := by
  rw [stmt] at h
  obtain ⟨l, hassign, hwrite⟩ := Script.yields_lift_bind_iff.mp h
  obtain rfl := Script.yields_line_iff.mp hwrite
  obtain ⟨v, hv, hline⟩ := Except.bind_eq_ok_iff.mp hassign
  have hvalue := operand_of_value hv
  split at hline
  · obtain ⟨p, hp, hline⟩ := Except.bind_eq_ok_iff.mp hline
    obtain rfl := Except.pure_eq_ok_iff.mp hline
    have hcall : Operand (.method p "write" [v]) :=
      operand_method (operand_of_proxyOf hp) (by decide) (by simp [hvalue])
    exact ⟨_, (ActionLine.write p v).emits hcall, .write hp hv⟩
  · obtain ⟨p, hp, hline⟩ := Except.bind_eq_ok_iff.mp hline
    obtain ⟨index, hi, hline⟩ := Except.bind_eq_ok_iff.mp hline
    obtain rfl := Except.pure_eq_ok_iff.mp hline
    have hcall : Operand (.method p "write_at" [index, v]) :=
      operand_method (operand_of_proxyOf hp) (by decide) (by simp [operand_of_value hi, hvalue])
    exact ⟨_, (ActionLine.writeAt p index v).emits hcall, .writeAt hp hi hv⟩
  · obtain ⟨p, hp, hline⟩ := Except.bind_eq_ok_iff.mp hline
    obtain ⟨high, hh, hline⟩ := Except.bind_eq_ok_iff.mp hline
    obtain ⟨low, hl, hline⟩ := Except.bind_eq_ok_iff.mp hline
    obtain rfl := Except.pure_eq_ok_iff.mp hline
    have hcall : Operand (.method p "write_slice" [high, low, v]) :=
      operand_method (operand_of_proxyOf hp) (by decide)
        (by simp [operand_of_value hh, operand_of_value hl, hvalue])
    exact ⟨_, (ActionLine.writeSlice p high low v).emits hcall, .writeSlice hp hh hl hv⟩
  · simp at hline

/-- Signals become invalid in order. -/
theorem invalidate_emits {ns : List Ident} {steps : List Step}
    (h : (s.invalidate ns).Yields steps ()) :
    ∃ prog, Emits steps prog ∧ Invalidates s ns prog := by
  unfold invalidate at h
  induction ns generalizing steps with
  | nil =>
      obtain ⟨rfl, -⟩ := Script.yields_done_iff.mp h
      exact ⟨[], emits_nil, .nil⟩
  | cons n ns ih =>
      obtain ⟨front, back, hfirst, hrest, rfl⟩ := Script.yields_forEach_cons_iff.mp h
      obtain ⟨p, hp, hline⟩ := Script.yields_lift_bind_iff.mp hfirst
      obtain rfl := Script.yields_line_iff.mp hline
      obtain ⟨prog, hemits, hprog⟩ := ih hrest
      have hcall : Operand (.method p "write_invalid" []) :=
        operand_method (operand_of_proxyOf hp) (by decide) (by simp)
      exact ⟨.writeInvalid p :: prog, ((ActionLine.writeInvalid p).emits hcall).append hemits,
        .cons hp hprog⟩

/-- The arm for the unknown outcome of a condition. -/
theorem invalidArm_emits {ns : List Ident} {steps : List Step}
    (h : (s.invalidArm ns).Yields steps ()) :
    ∃ prog, EmitsArm "Invalid" steps prog ∧ Invalidates s ns prog := by
  unfold invalidArm at h
  split at h
  · obtain rfl := Script.yields_line_iff.mp h
    exact ⟨[], emitsArm_empty (lexes_closed (by decide)), .nil⟩
  · obtain ⟨body, hbody, rfl⟩ := Script.yields_block_iff.mp h
    obtain ⟨prog, hemits, hprog⟩ := invalidate_emits hbody
    exact ⟨prog, emitsArm_block (lexes_closed (by decide)) hemits, hprog⟩

/-- The arm for the false outcome of a condition, when there is something left to do. -/
theorem falseArm_emits {script : Script Unit} {steps : List Step} {P : List HostStmt → Prop}
    (hscript : ∀ body, script.Yields body () → ∃ prog, Emits body prog ∧ P prog)
    (h : (falseArm (some script)).Yields steps ()) :
    ∃ prog, EmitsArm "False" steps prog ∧ P prog := by
  obtain ⟨body, hbody, rfl⟩ := Script.yields_block_iff.mp h
  obtain ⟨prog, hemits, hprog⟩ := hscript body hbody
  exact ⟨prog, emitsArm_block (lexes_closed (by decide)) hemits, hprog⟩

/-- Reports leave no text. -/
theorem emits_warnings {arms : List CaseArm} {warnings : List Step}
    (h : (s.warnRepeated arms).Yields warnings ()) : Emits warnings [] := by
  unfold warnRepeated at h
  generalize repeatedChoices [] (arms.flatMap CaseArm.choices) = choices at h
  induction choices generalizing warnings with
  | nil =>
      obtain ⟨rfl, -⟩ := Script.yields_done_iff.mp h
      exact emits_nil
  | cons choice choices ih =>
      obtain ⟨front, back, hlog, hrest, rfl⟩ := Script.yields_forEach_cons_iff.mp h
      obtain rfl := Script.yields_log_iff.mp hlog
      have hlogged : ∀ event, Emits [.log event] [] :=
        fun _ => ⟨[], tokenizes_nil, trivial, rfl⟩
      exact (hlogged _).append (ih hrest)

/-- What is written for a body is a host program that mirrors it. -/
def BodyEmits (s : Site) (body : List Stmt) : Prop :=
  ∀ steps, (s.block body).Yields steps () → ∃ prog, Emits steps prog ∧ BlockMirrors s body prog

/-- The else body behind the last branch of an if statement. -/
theorem elseArm_emits {elseBody : Option (List Stmt)} {steps : List Step}
    (helse : ∀ body ∈ elseBody, BodyEmits s body)
    (h : (falseArm (s.optionBlock elseBody)).Yields steps ()) :
    ∃ onFalse, EmitsArm "False" steps (onFalse.getD []) ∧ OptionMirrors s elseBody onFalse := by
  cases elseBody with
  | none =>
      obtain rfl := Script.yields_line_iff.mp h
      exact ⟨none, emitsArm_empty (lexes_closed (by decide)), .none⟩
  | some body =>
      obtain ⟨prog, hemits, hbody⟩ := falseArm_emits (helse body rfl) h
      exact ⟨some prog, hemits, .some hbody⟩

/-- The default of a case statement. -/
theorem default_emits {default : Option (List Stmt)} {steps : List Step}
    (hdefault : ∀ body ∈ default, BodyEmits s body)
    (h : (defaultArm (s.optionBlock default)).Yields steps ()) :
    ∃ otherwise, EmitsChain steps [] otherwise ∧ OptionMirrors s default otherwise := by
  cases default with
  | none =>
      obtain ⟨rfl, -⟩ := Script.yields_pure_iff.mp h
      exact ⟨none, emitsChain_nil, .none⟩
  | some body =>
      obtain ⟨inner, hinner, rfl⟩ := Script.yields_step_then_iff.mp h
      obtain ⟨prog, hemits, hbody⟩ := hdefault body rfl inner hinner
      exact ⟨some prog, emitsChain_default hemits, .some hbody⟩

/-- The branches of an if statement. -/
theorem branches_emit {elseBody : Option (List Stmt)} (helse : ∀ body ∈ elseBody, BodyEmits s body)
    {branches : List IfBranch} (hbranches : ∀ b ∈ branches, BodyEmits s b.body)
    {steps : List Step}
    (h : (s.branches (optionTargets elseBody) (s.optionBlock elseBody) branches).Yields steps ()) :
    ∃ st, Emits steps [st] ∧ BranchesMirror s elseBody branches st := by
  induction branches generalizing steps with
  | nil =>
      rw [Site.branches] at h
      exact (Script.yields_fail_iff.mp h).elim
  | cons b rest ih =>
      obtain ⟨condition, body⟩ := b
      obtain ⟨hbody, hrest⟩ := List.forall_mem_cons.mp hbranches
      obtain ⟨c, onTrue, onFalse, onInvalid, hc, htrue, hfalse, hinvalid, rfl⟩ := branches_yields h
      obtain ⟨t, ht, htrueMirrors⟩ := hbody onTrue htrue
      have htrueArm : EmitsArm "True" _ t :=
        emitsArm_block (l := .condTrue) (lexes_closed (by decide)) ht
      obtain ⟨i, hi, hinvalidates⟩ := invalidArm_emits hinvalid
      cases rest with
      | nil =>
          obtain ⟨f, hf, helseMirrors⟩ := elseArm_emits helse hfalse
          exact ⟨_, emits_matchCond (operand_of_value hc) htrueArm hf hi,
            .last hc htrueMirrors helseMirrors hinvalidates⟩
      | cons b' rest =>
          have hothers : ∀ inner, (s.branches (optionTargets elseBody) (s.optionBlock elseBody)
              (b' :: rest)).Yields inner () → ∃ prog, Emits inner prog ∧
                ∃ st, prog = [st] ∧ BranchesMirror s elseBody (b' :: rest) st := by
            intro inner hinner
            obtain ⟨st, hemits, hst⟩ := ih hrest hinner
            exact ⟨[st], hemits, st, rfl, hst⟩
          obtain ⟨f, hf, next, rfl, hnext⟩ := falseArm_emits hothers hfalse
          exact ⟨_, emits_matchCond (operand_of_value hc) htrueArm hf hi,
            .more hc htrueMirrors hnext hinvalidates⟩

/-- The arms of a case statement, with its default behind them. -/
theorem arms_emit {default : Option (List Stmt)} (hdefault : ∀ body ∈ default, BodyEmits s body)
    {arms : List CaseArm} (harms : ∀ arm ∈ arms, BodyEmits s arm.body)
    {tried otherwise : List Step} (htried : (s.arms arms).Yields tried ())
    (hotherwise : (defaultArm (s.optionBlock default)).Yields otherwise ()) :
    ∃ hostArms o, EmitsChain (tried ++ otherwise) hostArms o ∧ ArmsMirror s arms hostArms ∧
      OptionMirrors s default o := by
  induction arms generalizing tried with
  | nil =>
      obtain ⟨rfl, -⟩ := Script.yields_pure_iff.mp htried
      obtain ⟨o, hchain, hmirrors⟩ := default_emits hdefault hotherwise
      exact ⟨[], o, hchain, .nil, hmirrors⟩
  | cons arm rest ih =>
      obtain ⟨choices, body⟩ := arm
      obtain ⟨hbody, hrest⟩ := List.forall_mem_cons.mp harms
      obtain ⟨values, inner, others, hne, hvalues, hinner, hothers, rfl⟩ := arms_yields htried
      obtain ⟨prog, hemits, hprog⟩ := hbody inner hinner
      obtain ⟨hostArms, o, hchain, hmirrors, hoption⟩ := ih hrest hothers
      have harm := emitsChain_arm (values_ne_nil hvalues hne) (values_mirror hvalues).operands
        hemits hchain
      exact ⟨⟨values, prog⟩ :: hostArms, o, by simpa using harm, .cons hvalues hprog hmirrors,
        hoption⟩

/-- A body is written as the programs for its statements. -/
theorem bodyEmits_of_forall {body : List Stmt}
    (h : ∀ st ∈ body, ∀ steps, (s.stmt st).Yields steps () →
      ∃ prog, Emits steps prog ∧ StmtMirrors s st prog) : BodyEmits s body := by
  induction body with
  | nil =>
      intro steps hsteps
      obtain ⟨rfl, -⟩ := Script.yields_pure_iff.mp hsteps
      exact ⟨[], emits_nil, .nil⟩
  | cons first rest ih =>
      intro steps hsteps
      obtain ⟨hfirst, hrest⟩ := List.forall_mem_cons.mp h
      rw [block] at hsteps
      obtain ⟨front, back, hfront, hback, rfl⟩ := Script.yields_then_iff.mp hsteps
      obtain ⟨p, hp, hpMirrors⟩ := hfirst front hfront
      obtain ⟨q, hq, hqMirrors⟩ := ih hrest back hback
      exact ⟨p ++ q, hp.append hq, .cons hpMirrors hqMirrors⟩

/-- **Statements.**  What is written for a statement is a host program that mirrors it. -/
theorem stmt_emits (st : Stmt) : ∀ steps, (s.stmt st).Yields steps () →
    ∃ prog, Emits steps prog ∧ StmtMirrors s st prog := by
  induction st using Stmt.bodyInduction with
  | assign target value =>
      intro steps h
      exact assign_emits h
  | ifElse branches elseBody hbranches helse =>
      intro steps h
      rw [stmt] at h
      obtain ⟨st, hemits, hst⟩ := branches_emit (fun body hbody => bodyEmits_of_forall
        (helse body hbody)) (fun b hb => bodyEmits_of_forall (hbranches b hb)) h
      exact ⟨[st], hemits, .ifElse hst⟩
  | case selector arms default harms hdefault =>
      intro steps h
      obtain ⟨warnings, sel, onInvalid, tried, otherwise, hwarnings, hsel, hinvalid, htried,
        hotherwise, rfl⟩ := case_yields h
      obtain ⟨i, hi, hinvalidates⟩ := invalidate_emits hinvalid
      obtain ⟨hostArms, o, hchain, harmsMirror, hoption⟩ := arms_emit (fun body hbody =>
        bodyEmits_of_forall (hdefault body hbody)) (fun arm harm => bodyEmits_of_forall
          (harms arm harm)) htried hotherwise
      have hselect := emits_select (operand_of_value hsel) hi hchain
      exact ⟨_, (emits_warnings hwarnings).append hselect,
        .case hsel hinvalidates harmsMirror hoption⟩
  | block body hbody =>
      intro steps h
      rw [stmt] at h
      obtain ⟨prog, hemits, hprog⟩ := bodyEmits_of_forall hbody steps h
      exact ⟨prog, hemits, .block hprog⟩
  | null =>
      intro steps h
      rw [stmt] at h
      obtain ⟨rfl, -⟩ := Script.yields_pure_iff.mp h
      exact ⟨[], emits_nil, .null⟩

/-- Statements in order. -/
theorem block_emits (body : List Stmt) : BodyEmits s body :=
  bodyEmits_of_forall fun st _ => stmt_emits st

end Site

end HdlSim
