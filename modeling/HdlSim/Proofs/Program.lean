import HdlSim.Proofs.RoundTrip

/-!
# Reading host statements

The last stage of reading host code: tokens become statements.  Semicolons and braces group the
tokens into a tree (`nest`), and the nodes of the tree are statements (`HostStmt.ofNodes`): the
methods that write a signal, the match on a condition with its three arms, and the block that binds
a selector and tests it against choices.
-/

namespace HdlSim

open HostExpr

/-! ### Groups -/

/-- Tokens up to a semicolon, or tokens in front of a pair of braces and what is between them. -/
inductive Node where
  | simple (tokens : List Token)
  | block (head : List Token) (body : List Node)

/-- A pair of braces that is still open: the nodes before it and the tokens in front of it. -/
structure Frame where
  before : List Node
  head : List Token

/-- Groups tokens, given the braces that are open, the nodes since the innermost one and the tokens
since the last node. -/
def nest (outer : List Frame) (nodes : List Node) (head : List Token) :
    List Token → Option (List Node)
  | [] => if outer.isEmpty && head.isEmpty then some nodes else none
  | .sign ';' :: ts => nest outer (nodes ++ [.simple head]) [] ts
  | .sign '\x7b' :: ts => nest (⟨nodes, head⟩ :: outer) [] [] ts
  | .sign '\x7d' :: ts =>
    match outer, head with
    | frame :: outer, [] => nest outer (frame.before ++ [.block frame.head nodes]) [] ts
    | _, _ => none
  | t :: ts => nest outer nodes (head ++ [t]) ts

mutual

/-- The tokens of a node. -/
def Node.tokens : Node → List Token
  | .simple ts => ts ++ [.sign ';']
  | .block head body => head ++ .sign '\x7b' :: nodeTokens body ++ [.sign '\x7d']

/-- The tokens of some nodes, in order. -/
def nodeTokens : List Node → List Token
  | [] => []
  | n :: ns => n.tokens ++ nodeTokens ns

end

/-- No token in the list groups others. -/
def Plain (ts : List Token) : Prop :=
  ∀ t ∈ ts, t ≠ .sign ';' ∧ t ≠ .sign '\x7b' ∧ t ≠ .sign '\x7d'

instance (ts : List Token) : Decidable (Plain ts) := by
  unfold Plain; infer_instance

mutual

/-- In a node, only its own signs group tokens. -/
def Node.IsPlain : Node → Prop
  | .simple ts => Plain ts
  | .block head body => Plain head ∧ PlainNodes body

/-- The same of some nodes. -/
def PlainNodes : List Node → Prop
  | [] => True
  | n :: ns => n.IsPlain ∧ PlainNodes ns

end

/-- The tokens of two lists of nodes. -/
theorem nodeTokens_append (ns ms : List Node) :
    nodeTokens (ns ++ ms) = nodeTokens ns ++ nodeTokens ms := by
  induction ns with
  | nil => rfl
  | cons n ns ih => rw [List.cons_append, nodeTokens, nodeTokens, ih, List.append_assoc]

/-- Two lists of plain nodes. -/
theorem plainNodes_append {ns ms : List Node} (hns : PlainNodes ns) (hms : PlainNodes ms) :
    PlainNodes (ns ++ ms) := by
  induction ns with
  | nil => exact hms
  | cons n ns ih => exact ⟨hns.1, ih hns.2⟩

/-- Tokens without braces and semicolons are gathered in front of a group. -/
theorem nest_plain {ts : List Token} (hts : Plain ts) (outer : List Frame)
    (nodes : List Node) (head us : List Token) :
    nest outer nodes head (ts ++ us) = nest outer nodes (head ++ ts) us := by
  induction ts generalizing head with
  | nil => simp
  | cons t ts ih =>
      obtain ⟨hsemi, hopen, hclose⟩ := hts t List.mem_cons_self
      have hstep : nest outer nodes head (t :: (ts ++ us)) =
          nest outer nodes (head ++ [t]) (ts ++ us) := by
        rw [nest]
        · rintro rfl; exact hsemi rfl
        · rintro rfl; exact hopen rfl
        · rintro rfl; exact hclose rfl
      rw [List.cons_append, hstep, ih fun u hu => hts u (List.mem_cons_of_mem _ hu),
        List.append_assoc, List.singleton_append]

mutual

/-- A node is read as itself, whatever stands behind it. -/
theorem nest_node : ∀ {n : Node}, n.IsPlain → ∀ (outer : List Frame) (nodes : List Node)
    (ts : List Token), nest outer nodes [] (n.tokens ++ ts) = nest outer (nodes ++ [n]) [] ts
  | .simple us, hn, outer, nodes, ts => by
      rw [Node.tokens, List.append_assoc, nest_plain hn]
      rfl
  | .block head body, hn, outer, nodes, ts => by
      rw [Node.tokens, List.append_assoc, List.append_assoc, nest_plain hn.1, List.nil_append,
        List.cons_append, nest, nest_nodes hn.2]
      rfl

/-- Nodes are read as themselves, whatever stands behind them. -/
theorem nest_nodes : ∀ {ns : List Node}, PlainNodes ns → ∀ (outer : List Frame)
    (nodes : List Node) (ts : List Token),
    nest outer nodes [] (nodeTokens ns ++ ts) = nest outer (nodes ++ ns) [] ts
  | [], _, outer, nodes, ts => by simp [nodeTokens]
  | n :: ns, hns, outer, nodes, ts => by
      rw [nodeTokens, List.append_assoc, nest_node hns.1, nest_nodes hns.2, List.append_assoc,
        List.singleton_append]

end

/-- **Groups are found again.** -/
theorem nest_nodeTokens {ns : List Node} (hns : PlainNodes ns) :
    nest [] [] [] (nodeTokens ns) = some ns := by
  have h := nest_nodes hns [] [] []
  simpa [nest] using h

/-! ### Statements -/

mutual

/-- A statement of the host language. -/
inductive HostStmt where
  | write (proxy value : HostExpr)
  | writeAt (proxy index value : HostExpr)
  | writeSlice (proxy high low value : HostExpr)
  | writeInvalid (proxy : HostExpr)
  /-- The match on a condition, with an arm for each of its three outcomes. -/
  | matchCond (condition : HostExpr) (onTrue onFalse onInvalid : List HostStmt)
  /-- A selector, what to do when it is not valid, and the arms that are tried in order when it
  is. -/
  | select (selector : HostExpr) (onInvalid : List HostStmt) (arms : List HostArm)
      (otherwise : Option (List HostStmt))

/-- An arm: it is taken when the selector matches one of its choices. -/
structure HostArm where
  choices : List HostExpr
  body : List HostStmt

end

/-- The statement that an expression is. -/
def HostStmt.ofExpr : HostExpr → Option HostStmt
  | .method p "write" [v] => some (.write p v)
  | .method p "write_at" [i, v] => some (.writeAt p i v)
  | .method p "write_slice" [h, l, v] => some (.writeSlice p h l v)
  | .method p "write_invalid" [] => some (.writeInvalid p)
  | _ => none

/-- The condition that a call asks for. -/
def conditionOf : HostExpr → Option HostExpr
  | .call ⟨false, "sim_eval_cond"⟩ [c] => some c
  | _ => none

/-- The tokens in front of the arm for an outcome. -/
def outcomeHead (outcome : String) : List Token :=
  [.word "Cond", .sign ':', .sign ':', .word outcome, .sign '=', .sign '>']

/-- The tokens of the test that the selector is not valid. -/
def invalidHead : List Token :=
  [.word "if", .sign '!', .word "sel", .sign '.', .word "is_valid", .sign '(', .sign ')']

/-- The choices that the selector is tested against, with disjunction signs between the tests. -/
def choicesOf : List Token → Option (List HostExpr)
  | .word "sel" :: .sign '.' :: .word "matches" :: .sign '(' :: .sign '&' :: ts =>
    match _hread : operand [] ts with
    | some (c, [.sign ')']) => some [c]
    | some (c, .sign ')' :: .sign '|' :: .sign '|' :: rest) => (choicesOf rest).map (c :: ·)
    | _ => none
  | _ => none
termination_by ts => ts.length
decreasing_by
  obtain ⟨used, hused, -⟩ := (reader_sound ts).operand [] [] .nil _ _ _hread
  simp [hused]
  omega

mutual

/-- The statement that a node is. -/
def HostStmt.ofNode : Node → Option HostStmt
  | .simple ts => (whole ts).bind HostStmt.ofExpr
  | .block (.word "match" :: ts) [.block t onTrue, .block f onFalse, .block i onInvalid] =>
    if t = outcomeHead "True" ∧ f = outcomeHead "False" ∧ i = outcomeHead "Invalid" then do
      let condition ← (whole ts).bind conditionOf
      let onTrue ← HostStmt.ofNodes onTrue
      let onFalse ← HostStmt.ofNodes onFalse
      let onInvalid ← HostStmt.ofNodes onInvalid
      return .matchCond condition onTrue onFalse onInvalid
    else none
  | .block [] (.simple (.word "let" :: .word "sel" :: .sign '=' :: ts) :: .block test onInvalid ::
      rest) =>
    if test = invalidHead then do
      let selector ← whole ts
      let onInvalid ← HostStmt.ofNodes onInvalid
      let (arms, otherwise) ← HostStmt.ofChain rest
      return .select selector onInvalid arms otherwise
    else none
  | _ => none

/-- The statements that some nodes are. -/
def HostStmt.ofNodes : List Node → Option (List HostStmt)
  | [] => some []
  | n :: ns => do
    let first ← HostStmt.ofNode n
    let rest ← HostStmt.ofNodes ns
    return first :: rest

/-- The arms that follow the test of the selector, and what is done when none of them is taken. -/
def HostStmt.ofChain : List Node → Option (List HostArm × Option (List HostStmt))
  | [] => some ([], none)
  | .block (.word "else" :: .word "if" :: ts) body :: rest => do
    let choices ← choicesOf ts
    let body ← HostStmt.ofNodes body
    let (arms, otherwise) ← HostStmt.ofChain rest
    return (⟨choices, body⟩ :: arms, otherwise)
  | [.block [.word "else"] body] => do
    let body ← HostStmt.ofNodes body
    return ([], some body)
  | _ => none

end

/-- The statements that a text is. -/
def HostStmt.read (text : List Char) : Option (List HostStmt) :=
  ((lex text).bind (nest [] [] [])).bind HostStmt.ofNodes

/-! ### Reading back -/

/-- Two lists of tokens without braces and semicolons. -/
theorem plain_append {ts us : List Token} (hts : Plain ts) (hus : Plain us) : Plain (ts ++ us) := by
  intro t ht
  rcases List.mem_append.mp ht with ht | ht
  · exact hts t ht
  · exact hus t ht

/-- What holds of some tokens and of those between them holds of them all. -/
theorem forall_mem_joinTokens {P : Token → Prop} {between : List Token} {tss : List (List Token)}
    (hbetween : ∀ t ∈ between, P t) (h : ∀ ts ∈ tss, ∀ t ∈ ts, P t) :
    ∀ t ∈ joinTokens between tss, P t := by
  induction tss with
  | nil => intro t ht; cases ht
  | cons ts tss ih =>
      obtain ⟨hts, htss⟩ := List.forall_mem_cons.mp h
      cases tss with
      | nil => exact hts
      | cons us tss =>
          exact List.forall_mem_append.mpr ⟨List.forall_mem_append.mpr ⟨hts, hbetween⟩, ih htss⟩

/-- Lists without braces and semicolons, with such tokens between them. -/
private theorem plain_joinTokens {between : List Token} {tss : List (List Token)}
    (hbetween : Plain between) (h : ∀ ts ∈ tss, Plain ts) : Plain (joinTokens between tss) :=
  forall_mem_joinTokens hbetween h

/-- A word is neither a brace nor a semicolon. -/
theorem plain_word (w : String) : Plain [.word w] := by
  simp [Plain]

/-- The signs that expressions are written with. -/
def exprSigns : List Char :=
  ['(', ')', '.', ',', ':', '!', '-', '+', '*', '/', '%', '&', '|', '^', '<', '>']

/-- The token can stand in an expression. -/
def Token.InExpr : Token → Prop
  | .word w => Atom.ofWord? w ≠ none
  | .quoted _ => True
  | .sign c => c ∈ exprSigns

instance : (t : Token) → Decidable t.InExpr
  | .word w => inferInstanceAs (Decidable (Atom.ofWord? w ≠ none))
  | .quoted _ => .isTrue trivial
  | .sign c => inferInstanceAs (Decidable (c ∈ exprSigns))

/-- What holds of the tokens of arguments and of the comma holds of them all. -/
theorem forall_mem_parts {P : Token → Prop} (hcomma : P (.sign ','))
    {args : List (List Token × HostExpr)} (h : ∀ a ∈ args, ∀ t ∈ a.1, P t) :
    ∀ t ∈ commaTokens (args.map Prod.fst), P t :=
  forall_mem_joinTokens (by simpa using hcomma) (List.forall_mem_map.mpr h)

/-- What the tokens of an expression are. -/
theorem Derives.inExpr {k : Nat} {ts : List Token} {e : HostExpr} (h : Derives k ts e) :
    ∀ t ∈ ts, t.InExpr := by
  have hword : ∀ {w a}, Atom.ofWord? w = some a → Token.InExpr (.word w) :=
    fun hw => Option.ne_none_iff_exists'.mpr ⟨_, hw⟩
  have hself : Token.InExpr (.word "self") ∧ Token.InExpr (.word "Self") := by decide
  have hsigns : Token.InExpr (.sign '(') ∧ Token.InExpr (.sign ')') ∧ Token.InExpr (.sign '.') ∧
      Token.InExpr (.sign ',') ∧ Token.InExpr (.sign ':') := by decide
  induction h with
  | self => simpa using hself.1
  | bool hw => simpa using hword hw
  | int hw => simpa using hword hw
  | name hw => simpa using hword hw
  | str hbody => simp [Token.InExpr]
  | group he ih => simpa [or_imp, forall_and] using ⟨hsigns.1, ih, hsigns.2.1⟩
  | selfCall hw => simpa using ⟨hself.2, hsigns.2.2.2.2, hword hw, hsigns.1, hsigns.2.1⟩
  | call hw hargs ih =>
      have hparts := forall_mem_parts hsigns.2.2.2.1 ih
      simpa [or_imp, forall_and] using ⟨hword hw, hsigns.1, hparts, hsigns.2.1⟩
  | field he hw ih => simpa [or_imp, forall_and] using ⟨ih, hsigns.2.2.1, hword hw⟩
  | method he hm hargs ihe ih =>
      have hparts := forall_mem_parts hsigns.2.2.2.1 ih
      simpa [or_imp, forall_and] using
        ⟨ihe, hsigns.2.2.1, hword hm, hsigns.1, hparts, hsigns.2.1⟩
  | prefixed op he ih =>
      have hsign : Token.InExpr (.sign op.char) := by cases op <;> decide
      exact List.forall_mem_cons.mpr ⟨hsign, ih⟩
  | infixed op hl hr ihl ihr =>
      have hchars : ∀ t ∈ op.chars.map Token.sign, t.InExpr := by cases op <;> decide
      exact List.forall_mem_append.mpr ⟨List.forall_mem_append.mpr ⟨ihl, hchars⟩, ihr⟩
  | looser he hk ih => exact ih

/-- No token of an expression groups others. -/
theorem Derives.plain {k : Nat} {ts : List Token} {e : HostExpr} (h : Derives k ts e) :
    Plain ts := by
  have hno : ¬ Token.InExpr (.sign ';') ∧ ¬ Token.InExpr (.sign '\x7b') ∧
      ¬ Token.InExpr (.sign '\x7d') := by decide
  intro t ht
  have hin := h.inExpr t ht
  refine ⟨?_, ?_, ?_⟩
  · rintro rfl
    exact hno.1 hin
  · rintro rfl
    exact hno.2.1 hin
  · rintro rfl
    exact hno.2.2 hin

/-- The tokens of the test against a choice. -/
def testTokens (choice : HostExpr) : List Token :=
  [.word "sel", .sign '.', .word "matches", .sign '(', .sign '&'] ++ choice.tokens ++ [.sign ')']

/-- The tokens of the tests against some choices. -/
def choiceTokens (choices : List HostExpr) : List Token :=
  joinTokens [.sign '|', .sign '|'] (choices.map testTokens)

/-- The tests against choices have neither braces nor semicolons. -/
theorem plain_choiceTokens {choices : List HostExpr} (h : ∀ c ∈ choices, Operand c) :
    Plain (choiceTokens choices) := by
  refine plain_joinTokens (by decide) fun ts hts => ?_
  obtain ⟨c, hc, rfl⟩ := List.mem_map.mp hts
  exact plain_append (plain_append (by decide) (h c hc).derives.plain) (by decide)

/-- **Choices are found again.** -/
theorem choicesOf_choiceTokens {choices : List HostExpr} (hne : choices ≠ [])
    (h : ∀ c ∈ choices, Operand c) : choicesOf (choiceTokens choices) = some choices := by
  induction choices with
  | nil => exact absurd rfl hne
  | cons c choices ih =>
      have hc : ∀ ts, operand [] (c.tokens ++ .sign ')' :: ts) = some (c, .sign ')' :: ts) :=
        fun ts => (h c List.mem_cons_self).derives.reads.of_postfixRank [] (by simp)
      cases choices with
      | nil =>
          have hform : choiceTokens [c] = .word "sel" :: .sign '.' :: .word "matches" ::
              .sign '(' :: .sign '&' :: (c.tokens ++ [Token.sign ')']) := by
            simp [choiceTokens, joinTokens, testTokens]
          rw [hform, choicesOf]
          split
          · simp_all
          · simp_all
          · simp_all
      | cons d choices =>
          have hrest := ih (by simp) fun e he => h e (List.mem_cons_of_mem _ he)
          have hform : choiceTokens (c :: d :: choices) = .word "sel" :: .sign '.' ::
              .word "matches" :: .sign '(' :: .sign '&' ::
                (c.tokens ++
                  .sign ')' :: .sign '|' :: .sign '|' :: choiceTokens (d :: choices)) := by
            simp [choiceTokens, joinTokens, testTokens]
          rw [hform, choicesOf]
          split
          · simp_all
          · simp_all
          · simp_all

/-- The statements of two lists of nodes. -/
theorem HostStmt.ofNodes_append {ns ms : List Node} {p q : List HostStmt}
    (hns : HostStmt.ofNodes ns = some p) (hms : HostStmt.ofNodes ms = some q) :
    HostStmt.ofNodes (ns ++ ms) = some (p ++ q) := by
  induction ns generalizing p with
  | nil =>
      obtain rfl : [] = p := by simpa [HostStmt.ofNodes] using hns
      exact hms
  | cons n ns ih =>
      simp only [HostStmt.ofNodes, Option.bind_eq_bind, Option.bind_eq_some_iff] at hns
      obtain ⟨first, hfirst, rest, hrest, hp⟩ := hns
      obtain rfl : first :: rest = p := by simpa using hp
      simp [HostStmt.ofNodes, hfirst, ih hrest]

/-- An expression that is a statement, as a node. -/
theorem HostStmt.ofNode_simple {e : HostExpr} {st : HostStmt} (he : Operand e)
    (hst : HostStmt.ofExpr e = some st) : HostStmt.ofNode (.simple e.tokens) = some st := by
  rw [HostStmt.ofNode, whole_eq_some_iff.mpr (he.derives.looser (Nat.zero_le _))]
  exact hst

end HdlSim
