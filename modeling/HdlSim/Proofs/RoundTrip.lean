import HdlSim.Proofs.Parser

/-!
# Host expressions read back

An *operand* is a host expression whose text holds together by itself: a name, a literal, a call, or
an operator application in its parentheses.  Its text is read back as the same tree in every
context, whatever is waiting in front of it and whatever stands behind it (`Operand.lex_text`,
`Operand.operand_text`); read alone, it is that tree (`Operand.parse_text`).
-/

namespace HdlSim

/-! ### Names -/

/-- The identifier is read back from its text. -/
def HostName.IsProper (n : HostName) : Prop := Atom.ofWord? n.text = some (.name n)

instance (n : HostName) : Decidable n.IsProper := by
  unfold HostName.IsProper; infer_instance

/-- A word that names a method. -/
def IsMethodName (m : String) : Prop := (HostName.plain m).IsProper

instance (m : String) : Decidable (IsMethodName m) := by
  unfold IsMethodName; infer_instance

/-- The characters of a word, one by one. -/
theorem isName_iff {cs : List Char} :
    isName cs = true ↔
      cs ≠ [] ∧ (∀ c ∈ cs.head?, c.isDigit = false) ∧ cs.all HostName.isWordChar = true := by
  cases cs with
  | nil => simp [isName]
  | cons c cs => simp [isName]

/-- The text of a name is one word, and does not begin like a number. -/
theorem HostName.Stands.text_chars {n : HostName} (h : n.Stands) :
    n.text.toList ≠ [] ∧ n.text.toList.all isNameChar = true ∧
      ∀ c ∈ n.text.toList.head?, c.isDigit = false := by
  obtain ⟨hne, hhead, hall⟩ := isName_iff.mp (isWord_iff.mp h.isWord)
  have hword : n.word.toList.all isNameChar = true := by
    rw [List.all_eq_true] at hall ⊢
    intro c hc
    simp [isNameChar, hall c hc]
  cases hraw : n.raw with
  | false =>
      have hform : n.text = n.word := by simp [text, hraw]
      rw [hform]
      exact ⟨hne, hword, hhead⟩
  | true =>
      have hform : n.text.toList = 'r' :: '#' :: n.word.toList := by simp [text, hraw]
      have hmark : isNameChar 'r' = true ∧ isNameChar '#' = true ∧ 'r'.isDigit = false := by decide
      rw [hform]
      refine ⟨List.cons_ne_nil _ _, ?_, fun c hc => ?_⟩
      · simp [hmark, hword]
      · obtain rfl := Option.some.inj hc
        exact hmark.2.2

/-- A word is read as a name exactly where an identifier would be read from it: the words and
numbers that have another meaning are no identifiers. -/
theorem Atom.ofWord?_eq_name_iff {w : String} {n : HostName} :
    Atom.ofWord? w = some (.name n) ↔ HostName.ofText? w = some n := by
  by_cases hself : w = "self"
  · subst hself
    simp [Atom.ofWord?, (by decide : HostName.ofText? "self" = none)]
  by_cases hSelf : w = "Self"
  · subst hSelf
    simp [Atom.ofWord?, (by decide : HostName.ofText? "Self" = none)]
  by_cases htrue : w = "true"
  · subst htrue
    simp [Atom.ofWord?, (by decide : HostName.ofText? "true" = none)]
  by_cases hfalse : w = "false"
  · subst hfalse
    simp [Atom.ofWord?, (by decide : HostName.ofText? "false" = none)]
  rw [Atom.ofWord?, if_neg hself, if_neg hSelf, if_neg htrue, if_neg hfalse]
  cases hnat : Text.readNat? w.toList with
  | none => simp
  | some k =>
      refine ⟨nofun, fun hname => ?_⟩
      obtain ⟨rfl, hstands⟩ := HostName.ofText?_eq_some_iff.mp hname
      obtain ⟨hne, -, hhead⟩ := hstands.text_chars
      obtain ⟨c, cs, hform⟩ := List.exists_cons_of_ne_nil hne
      have hc : c.isDigit = false := hhead c (by rw [hform]; rfl)
      rw [hform] at hnat
      simp [Text.readNat?, hc] at hnat

/-- **Names that are read back** are the identifiers, and the underscore. -/
theorem HostName.isProper_iff {n : HostName} : n.IsProper ↔ n.Stands := by
  rw [IsProper, Atom.ofWord?_eq_name_iff, ofText?_eq_some_iff]
  exact and_iff_right rfl

/-- What is read as a name is a word. -/
theorem Atom.name_text {w : String} {n : HostName} (h : Atom.ofWord? w = some (.name n)) :
    w.toList ≠ [] ∧ w.toList.all isNameChar = true := by
  obtain ⟨rfl, hstands⟩ := HostName.ofText?_eq_some_iff.mp (Atom.ofWord?_eq_name_iff.mp h)
  exact ⟨hstands.text_chars.1, hstands.text_chars.2.1⟩

/-- A number is read as a word. -/
theorem Atom.ofWord?_natText (n : Nat) : Atom.ofWord? (Text.natText n) = some (.int n) := by
  have hdigit : ∀ c ∈ (Text.natText n).toList, c.isDigit = true :=
    fun c hc => Text.isDigit_of_mem_natText hc
  have hword : ∀ w : String, (∃ c ∈ w.toList, c.isDigit = false) → Text.natText n ≠ w := by
    rintro w ⟨c, hc, hno⟩ rfl
    exact absurd (hdigit c hc) (by simp [hno])
  simp [Atom.ofWord?, hword "self" ⟨'s', by decide⟩, hword "Self" ⟨'S', by decide⟩,
    hword "true" ⟨'t', by decide⟩, hword "false" ⟨'f', by decide⟩, Text.readNat?_natText]

/-- The word for a name is never empty, never begins with a digit and has word characters only. -/
theorem isName_wordChars (name : List Char) : isName (HostName.wordChars name) = true := by
  have hall : (name.map fun c => if HostName.isWordChar c then c else '_').all
      HostName.isWordChar = true := by
    rw [List.all_eq_true]
    intro c hc
    obtain ⟨d, -, rfl⟩ := List.mem_map.mp hc
    split
    · assumption
    · decide
  unfold HostName.wordChars
  generalize (name.map fun c => if HostName.isWordChar c then c else '_') = cs at hall
  cases cs with
  | nil => decide
  | cons c cs =>
      cases hdigit : c.isDigit with
      | true =>
          have hunder : HostName.isWordChar '_' = true := by decide
          simpa [hdigit, isName, hunder] using hall
      | false => simpa [hdigit, isName] using hall

/-- The identifier for any HDL name is one of the host language, unless its word is the
underscore. -/
theorem HostName.escape_isIdentifier {name : String}
    (h : String.ofList (wordChars name.toList) ≠ "_") : (escape name).IsIdentifier := by
  have hreserved : ∀ w ∈ reserved, (plain (w ++ "_")).IsIdentifier := by decide
  have hkeyword : ∀ w ∈ keywords, w ∉ neverRaw := by decide
  have hothers : ∀ w ∈ neverRaw ++ languageKeywords, w ∈ reserved ++ keywords ++ ["_"] := by decide
  have hword : IsWord (String.ofList (wordChars name.toList)) := by
    rw [isWord_iff, String.toList_ofList]
    exact isName_wordChars name.toList
  unfold escape
  generalize String.ofList (wordChars name.toList) = w at h hword
  dsimp only
  by_cases hmine : w ∈ reserved
  · rw [if_pos hmine]
    exact hreserved w hmine
  rw [if_neg hmine]
  by_cases htheirs : w ∈ keywords
  · rw [if_pos htheirs]
    exact ⟨hword, hkeyword w htheirs, nofun⟩
  · rw [if_neg htheirs]
    have hfree : w ∉ neverRaw ++ languageKeywords := by
      intro hmem
      have hone := hothers w hmem
      simp only [List.mem_append, List.mem_singleton] at hone
      exact hone.elim (fun hboth => hboth.elim hmine htheirs) h
    obtain ⟨hraw, hlanguage⟩ := not_or.mp (mt List.mem_append.mpr hfree)
    exact ⟨hword, hraw, fun _ => hlanguage⟩

/-- **Escaped names are read back.**  The identifier for any HDL name is read back from its
text. -/
theorem HostName.escape_isProper (name : String) : (HostName.escape name).IsProper := by
  rw [isProper_iff]
  by_cases h : String.ofList (wordChars name.toList) = "_"
  · refine .inr ?_
    have hfree : "_" ∉ reserved ∧ "_" ∉ keywords := by decide
    unfold escape
    rw [h]
    dsimp only
    rw [if_neg hfree.1, if_neg hfree.2]
    rfl
  · exact .inl (escape_isIdentifier h)

/-- The word of an escaped name. -/
theorem HostName.isName_escape_word (name : String) :
    isName (HostName.escape name).word.toList = true := by
  have hstands : (escape name).Stands := isProper_iff.mp (escape_isProper name)
  exact isWord_iff.mp hstands.isWord

/-! ### Tokens of an expression -/

/-- The tokens of an integer. -/
def intTokens : Int → List Token
  | .ofNat n => [.word (Text.natText n)]
  | .negSucc n => [.sign '-', .word (Text.natText (n + 1))]

namespace HostExpr

mutual

/-- The tokens of an expression. -/
def tokens : HostExpr → List Token
  | .name n => [.word n.text]
  | .self => [.word "self"]
  | .field e n => e.tokens ++ [.sign '.', .word n.text]
  | .int v => intTokens v
  | .bool b => [.word (Text.boolText b)]
  | .str s => [.quoted (s.toList.flatMap Text.escapeChar)]
  | .strs ss =>
    .sign '&' :: .sign '[' ::
      commaTokens (ss.map fun s => [.quoted (s.toList.flatMap Text.escapeChar)]) ++ [.sign ']']
  | .call f args => .word f.text :: .sign '(' :: commaTokens (tokenLists args) ++ [.sign ')']
  | .selfCall f =>
    [.word "Self", .sign ':', .sign ':', .word f.text, .sign '(', .sign ')']
  | .method e m args =>
    e.tokens ++ .sign '.' :: .word m :: .sign '(' :: commaTokens (tokenLists args) ++ [.sign ')']
  | .prefixed op e => .sign '(' :: .sign op.char :: e.tokens ++ [.sign ')']
  | .infixed op l r => .sign '(' :: l.tokens ++ op.chars.map .sign ++ r.tokens ++ [.sign ')']

/-- The tokens of some expressions, each by itself. -/
def tokenLists : List HostExpr → List (List Token)
  | [] => []
  | e :: es => e.tokens :: tokenLists es

end

/-- An integer, which stands only as an argument. -/
def isInt : HostExpr → Bool
  | .int _ => true
  | _ => false

/-- An expression whose text holds together by itself. -/
inductive Operand : HostExpr → Prop
  | name {n : HostName} (hn : n.IsProper) : Operand (.name n)
  | self : Operand .self
  | field {e : HostExpr} {n : HostName} (he : Operand e) (hn : n.IsProper) : Operand (.field e n)
  | bool (b : Bool) : Operand (.bool b)
  | str (s : String) : Operand (.str s)
  | call {f : HostName} {args : List HostExpr} (hf : f.IsProper)
      (hargs : ∀ a ∈ args, a.isInt = false → Operand a) : Operand (.call f args)
  | selfCall {f : HostName} (hf : f.IsProper) : Operand (.selfCall f)
  | method {e : HostExpr} {m : String} {args : List HostExpr} (he : Operand e)
      (hm : IsMethodName m) (hargs : ∀ a ∈ args, a.isInt = false → Operand a) :
      Operand (.method e m args)
  | prefixed {e : HostExpr} (op : HostPrefix) (he : Operand e) : Operand (.prefixed op e)
  | infixed {l r : HostExpr} (op : HostInfix) (hl : Operand l) (hr : Operand r) :
      Operand (.infixed op l r)

/-- The tokens of some expressions, one after the other. -/
theorem tokenLists_eq_map (es : List HostExpr) : tokenLists es = es.map tokens := by
  induction es with
  | nil => rfl
  | cons e es ih => rw [tokenLists, ih, List.map_cons]

/-- The texts of some expressions, one after the other. -/
theorem texts_eq_map (es : List HostExpr) : texts es = es.map text := by
  induction es with
  | nil => rfl
  | cons e es ih => rw [texts, ih, List.map_cons]

end HostExpr

/-! ### From text to tokens -/

/-- The text has these tokens, whatever stands behind it without going on with its last word. -/
def Lexes (text : List Char) (ts : List Token) : Prop :=
  ∀ cs, Breaks cs → lex (text ++ cs) = (lex cs).map (ts ++ ·)

/-- A word is one token. -/
theorem lexes_word {w : String} (hne : w.toList ≠ []) (hw : w.toList.all isNameChar = true) :
    Lexes w.toList [.word w] := by
  intro cs hcs
  rw [lex_word hne hw hcs]
  rfl

/-- A quoted string is one token. -/
theorem lexes_quote (s : String) :
    Lexes (Text.quote s).toList [.quoted (s.toList.flatMap Text.escapeChar)] := by
  intro cs _
  rw [lex_quote]
  rfl

/-- An identifier is one token. -/
theorem HostName.IsProper.lexes {n : HostName} (hn : n.IsProper) :
    Lexes n.text.toList [.word n.text] :=
  lexes_word (Atom.name_text hn).1 (Atom.name_text hn).2

/-- The name of a method is one token. -/
theorem IsMethodName.lexes {m : String} (hm : IsMethodName m) : Lexes m.toList [.word m] :=
  HostName.IsProper.lexes (n := .plain m) hm

/-- A number is one token. -/
theorem lexes_natText (n : Nat) : Lexes (Text.natText n).toList [.word (Text.natText n)] := by
  apply lexes_word (Text.natText_ne_nil n)
  rw [List.all_eq_true]
  intro c hc
  have hdigit := Text.isDigit_of_mem_natText hc
  simp [isNameChar, HostName.isWordChar, Char.isAlphanum, hdigit]

/-- An integer is a number, with a sign in front of it if it is negative. -/
private theorem lexes_intText (v : Int) : Lexes (Text.intText v).toList (intTokens v) := by
  cases v with
  | ofNat n => exact lexes_natText n
  | negSucc n =>
      intro cs hcs
      have hsign : isSign '-' = true := by decide
      rw [Text.intText, String.toList_append, List.append_assoc]
      show lex ('-' :: ((Text.natText (n + 1)).toList ++ cs)) = _
      rw [lex_sign hsign, lexes_natText (n + 1) cs hcs]
      simp [intTokens, Function.comp_def]

/-- Texts with a separator between them have the tokens of the texts, with those of the separator
between them. -/
theorem lexes_joinWith {α : Type} {xs : List α} {f : α → String} {g : α → List Token}
    {separator : String} {between : List Token}
    (hscan : scanned .between separator.toList = (between, .between))
    (hbreak : ∀ cs, Breaks (separator.toList ++ cs)) (h : ∀ x ∈ xs, Lexes (f x).toList (g x)) :
    Lexes (Text.joinWith separator (xs.map f)).toList (joinTokens between (xs.map g)) := by
  induction xs with
  | nil =>
      intro cs _
      simp [Text.joinWith, joinTokens]
  | cons x xs ih =>
      have hx := h x List.mem_cons_self
      have hxs := ih (fun y hy => h y (List.mem_cons_of_mem _ hy))
      cases xs with
      | nil => exact hx
      | cons y ys =>
          intro cs hcs
          have htext : (Text.joinWith separator ((x :: y :: ys).map f)).toList ++ cs =
              (f x).toList ++ (separator.toList ++
                ((Text.joinWith separator ((y :: ys).map f)).toList ++ cs)) := by
            simp [Text.joinWith]
          rw [htext, hx _ (hbreak _), lex_append_closed hscan, hxs cs hcs]
          simp [joinTokens, Function.comp_def]

/-- A comma separated list has the tokens of its members, with commas between them. -/
theorem lexes_commaList {α : Type} {xs : List α} {f : α → String} {g : α → List Token}
    (h : ∀ x ∈ xs, Lexes (f x).toList (g x)) :
    Lexes (Text.commaList (xs.map f)).toList (commaTokens (xs.map g)) :=
  lexes_joinWith (by decide) (fun _ => breaks_cons.mpr (by decide)) h

namespace HostExpr

/-- An argument is an operand or an integer, and either has its tokens. -/
theorem lexes_argument {a : HostExpr} (h : a.isInt = false → Lexes a.text.toList a.tokens) :
    Lexes a.text.toList a.tokens := by
  cases a with
  | int v => rw [text, tokens]; exact lexes_intText v
  | _ => exact h rfl

/-- The arguments of a call have the tokens of each, with commas between them. -/
theorem lexes_arguments {args : List HostExpr}
    (h : ∀ a ∈ args, a.isInt = false → Lexes a.text.toList a.tokens) :
    Lexes (Text.commaList (texts args)).toList (commaTokens (tokenLists args)) := by
  rw [texts_eq_map, tokenLists_eq_map]
  exact lexes_commaList (fun a ha => lexes_argument (h a ha))

/-- **From text to tokens.**  The text of an operand has the tokens of the operand. -/
theorem Operand.lexes {e : HostExpr} (he : Operand e) : Lexes e.text.toList e.tokens := by
  have hdot : isSign '.' = true := by decide
  have hopen : isSign '(' = true := by decide
  have hclose : isSign ')' = true := by decide
  have hcolon : isSign ':' = true := by decide
  induction he with
  | name hn => rw [text, tokens]; exact hn.lexes
  | self => exact lexes_word (w := "self") (by decide) (by decide)
  | @field e n he hn ih =>
      intro cs hcs
      have htext : (HostExpr.field e n).text.toList ++ cs =
          e.text.toList ++ '.' :: (n.text.toList ++ cs) := by simp [text]
      rw [htext, ih _ (breaks_cons.mpr (by decide)), lex_sign hdot, hn.lexes cs hcs]
      simp [tokens, Function.comp_def]
  | bool b =>
      cases b with
      | false => exact lexes_word (w := "false") (by decide) (by decide)
      | true => exact lexes_word (w := "true") (by decide) (by decide)
  | str s => rw [text, tokens]; exact lexes_quote s
  | @call f args hf hargs ih =>
      intro cs hcs
      have htext : (HostExpr.call f args).text.toList ++ cs =
          f.text.toList ++ '(' :: ((Text.commaList (texts args)).toList ++ ')' :: cs) := by
        simp [text]
      rw [htext, hf.lexes _ (breaks_cons.mpr (by decide)), lex_sign hopen,
        lexes_arguments ih _ (breaks_cons.mpr (by decide)), lex_sign hclose]
      simp [tokens, Function.comp_def]
  | @selfCall f hf =>
      intro cs hcs
      have htext : (HostExpr.selfCall f).text.toList ++ cs =
          "Self".toList ++ ':' :: ':' :: (f.text.toList ++ '(' :: ')' :: cs) := by
        simp [text]
      have hSelf : Lexes "Self".toList [.word "Self"] := lexes_word (by decide) (by decide)
      rw [htext, hSelf _ (breaks_cons.mpr (by decide)), lex_sign hcolon, lex_sign hcolon,
        hf.lexes _ (breaks_cons.mpr (by decide)), lex_sign hopen, lex_sign hclose]
      simp [tokens, Function.comp_def]
  | @method e m args he hm hargs ihe ih =>
      intro cs hcs
      have htext : (HostExpr.method e m args).text.toList ++ cs =
          e.text.toList ++ '.' :: (m.toList ++
            '(' :: ((Text.commaList (texts args)).toList ++ ')' :: cs)) := by
        simp [text]
      rw [htext, ihe _ (breaks_cons.mpr (by decide)), lex_sign hdot,
        hm.lexes _ (breaks_cons.mpr (by decide)), lex_sign hopen,
        lexes_arguments ih _ (breaks_cons.mpr (by decide)), lex_sign hclose]
      simp [tokens, Function.comp_def]
  | @prefixed e op he ih =>
      intro cs hcs
      have hsign : isSign op.char = true := by cases op <;> decide
      have htext : (HostExpr.prefixed op e).text.toList ++ cs =
          '(' :: op.char :: (e.text.toList ++ ')' :: cs) := by
        cases op <;> simp [text, HostPrefix.sign, HostPrefix.char]
      rw [htext, lex_sign hopen, lex_sign hsign, ih _ (breaks_cons.mpr (by decide)),
        lex_sign hclose]
      simp [tokens, Function.comp_def]
  | @infixed l r op hl hr ihl ihr =>
      intro cs hcs
      have hsigns : ∀ us, lex (op.chars ++ us) = (lex us).map (op.chars.map .sign ++ ·) := by
        intro us
        apply lex_append_closed
        cases op <;> decide
      have htext : (HostExpr.infixed op l r).text.toList ++ cs =
          '(' :: (l.text.toList ++ ' ' :: (op.chars ++ ' ' :: (r.text.toList ++ ')' :: cs))) := by
        cases op <;> simp [text, HostInfix.sign, HostInfix.chars]
      rw [htext, lex_sign hopen, ihl _ (breaks_cons.mpr (by decide)), lex_space, hsigns, lex_space,
        ihr _ (breaks_cons.mpr (by decide)), lex_sign hclose]
      simp [tokens, Function.comp_def]

end HostExpr

/-! ### From tokens to trees -/

/-- The tokens of an integer are the integer. -/
theorem derives_int (v : Int) : Derives prefixRank (intTokens v) (.int v) := by
  have hnat : ∀ n : Nat, Derives prefixRank [.word (Text.natText n)] (.int n) :=
    fun n => (Derives.int (Atom.ofWord?_natText n)).looser (by decide)
  cases v with
  | ofNat n => exact hnat n
  | negSucc n => exact .prefixed .neg (hnat (n + 1))

namespace HostExpr

/-- An argument is derived at the loosest rank, as it stands in brackets. -/
private theorem derives_argument {a : HostExpr}
    (h : a.isInt = false → Derives postfixRank a.tokens a) : Derives 0 a.tokens a := by
  cases a with
  | int v => exact (derives_int v).looser (Nat.zero_le _)
  | _ => exact (h rfl).looser (Nat.zero_le _)

/-- The arguments of a call with their tokens. -/
def parts (args : List HostExpr) : List (List Token × HostExpr) :=
  args.map fun a => (a.tokens, a)

/-- The tokens of arguments taken with their tokens. -/
theorem parts_fst (args : List HostExpr) : (parts args).map Prod.fst = tokenLists args := by
  rw [tokenLists_eq_map, parts, List.map_map]
  rfl

/-- The arguments taken with their tokens. -/
theorem parts_snd (args : List HostExpr) : (parts args).map Prod.snd = args := by
  rw [parts, List.map_map]
  exact List.map_id args

/-- Arguments taken with their tokens are derived from them. -/
theorem derives_parts {args : List HostExpr}
    (h : ∀ a ∈ args, a.isInt = false → Derives postfixRank a.tokens a) :
    ∀ p ∈ parts args, Derives 0 p.1 p.2 := by
  intro p hp
  obtain ⟨a, ha, rfl⟩ := List.mem_map.mp hp
  exact derives_argument (h a ha)

/-- **From tokens to trees.**  The tokens of an operand form that operand, and nothing that binds
looser is outside brackets. -/
theorem Operand.derives {e : HostExpr} (he : Operand e) : Derives postfixRank e.tokens e := by
  induction he with
  | name hn => exact .name hn
  | self => exact .self
  | field he hn ih => exact .field ih hn
  | bool b =>
      have hw : Atom.ofWord? (Text.boolText b) = some (.bool b) := by cases b <;> decide
      exact .bool hw
  | str s =>
      have hstr := Derives.str (Text.unescape_flatMap_escapeChar s.toList)
      rwa [String.ofList_toList] at hstr
  | @call f args hf hargs ih =>
      have hcall := Derives.call hf (derives_parts ih)
      rwa [parts_fst, parts_snd] at hcall
  | selfCall hf => exact .selfCall hf
  | @method e m args he hm hargs ihe ih =>
      have hcall := Derives.method ihe hm (derives_parts ih)
      rwa [parts_fst, parts_snd] at hcall
  | @prefixed e op he ih =>
      have hover : op.over e = .prefixed op e := by
        cases he <;> cases op <;> rfl
      have hprefixed := Derives.prefixed op (ih.looser (k := prefixRank) (by decide))
      rw [hover] at hprefixed
      exact .group (hprefixed.looser (Nat.zero_le _))
  | @infixed l r op hl hr ihl ihr =>
      have hrank : op.rank + 1 ≤ postfixRank := Nat.le_succ_of_le op.rank_lt_prefixRank
      have hinfixed := Derives.infixed op (ihl.looser (Nat.le_of_succ_le hrank)) (ihr.looser hrank)
      have hgroup := Derives.group (hinfixed.looser (Nat.zero_le _))
      simpa [tokens] using hgroup

/-- The tokens of the text of an operand. -/
theorem Operand.lex_text {e : HostExpr} (he : Operand e) : lex e.text.toList = some e.tokens := by
  simpa using he.lexes [] breaks_nil

/-- The text of an operand, read alone, is the operand. -/
theorem Operand.parse_text {e : HostExpr} (he : Operand e) : parse e.text = some e :=
  parse_eq_some_iff.mpr ⟨e.tokens, he.lex_text, he.derives.looser (Nat.zero_le _)⟩

/-- **An operand in a text.**  Whatever waits in front of it, an operand is read as itself before
what stands behind it is looked at. -/
theorem Operand.operand_text {e : HostExpr} (he : Operand e) (stack : List Pending)
    {cs : List Char} {ts : List Token} (hcs : Breaks cs) (hlex : lex cs = some ts)
    (hcall : NoCall ts) :
    (lex (e.text.toList ++ cs)).bind (operand stack) = further stack e ts := by
  rw [he.lexes cs hcs, hlex]
  exact he.derives.reads.of_postfixRank stack hcall

end HostExpr

end HdlSim
