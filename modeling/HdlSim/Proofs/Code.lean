import HdlSim.Proofs.Lines
import HdlSim.Proofs.Refinement

/-!
# Code without its comments

What a text says as code: its tokens, once every comment is replaced by a space (`codeTokens`).
Neither the signs of a comment nor a quote inside of it count for anything, and neither do the signs
of a comment inside a string.

A piece of code is `Spelled` if it has its tokens in every text, provided that no word goes on
behind it, and `Closed` if that cannot happen.  Longer pieces are put together from fixed texts with
names, values and strings in between (`Closed.slot`).
-/

namespace HdlSim

open Text

/-- Where a character stands. -/
inductive Region where
  | code
  | string
  /-- Inside quotes, behind a backslash. -/
  | escape
  | lineComment
  /-- Inside comments in brackets, of which this many more are open. -/
  | blockComment (outer : Nat)

/-- The text from some region on, with a space in place of each comment. -/
def uncomment : Region → List Char → List Char
  | _, [] => []
  | .code, '/' :: '/' :: cs => ' ' :: uncomment .lineComment cs
  | .code, '/' :: '*' :: cs => ' ' :: uncomment (.blockComment 0) cs
  | .code, '"' :: cs => '"' :: uncomment .string cs
  | .code, c :: cs => c :: uncomment .code cs
  | .string, '"' :: cs => '"' :: uncomment .code cs
  | .string, '\\' :: cs => '\\' :: uncomment .escape cs
  | .string, c :: cs => c :: uncomment .string cs
  | .escape, c :: cs => c :: uncomment .string cs
  | .lineComment, '\n' :: cs => '\n' :: uncomment .code cs
  | .lineComment, _ :: cs => uncomment .lineComment cs
  | .blockComment outer, '/' :: '*' :: cs => uncomment (.blockComment (outer + 1)) cs
  | .blockComment 0, '*' :: '/' :: cs => uncomment .code cs
  | .blockComment (outer + 1), '*' :: '/' :: cs => uncomment (.blockComment outer) cs
  | .blockComment outer, _ :: cs => uncomment (.blockComment outer) cs

/-- **The tokens of a text**, outside of comments. -/
def codeTokens (text : List Char) : Option (List Token) := lex (uncomment .code text)

/-! ### Texts without comments -/

/-- The text holds no comment, and leaves none open. -/
def IsCode (text : List Char) : Prop :=
  ∀ cs, uncomment .code (text ++ cs) = text ++ uncomment .code cs

theorem isCode_nil : IsCode [] := fun _ => rfl

/-- Two texts without comments in a row. -/
theorem IsCode.append {a b : List Char} (ha : IsCode a) (hb : IsCode b) : IsCode (a ++ b) := by
  intro cs
  rw [List.append_assoc, ha, hb, List.append_assoc]

/-- A character that begins neither a comment nor a string. -/
def isCodeChar (c : Char) : Bool := c != '/' && c != '"'

/-- A character that begins neither a comment nor a string is kept. -/
theorem uncomment_cons {c : Char} (h : isCodeChar c = true) (cs : List Char) :
    uncomment .code (c :: cs) = c :: uncomment .code cs := by
  obtain ⟨hslash, hquote⟩ : c ≠ '/' ∧ c ≠ '"' := by simpa [isCodeChar] using h
  rw [uncomment]
  · rintro d rfl
    exact absurd rfl hslash
  · rintro d rfl
    exact absurd rfl hslash
  · rintro rfl
    exact absurd rfl hquote

/-- A text of such characters has no comments. -/
theorem isCode_of_all {text : List Char} (h : text.all isCodeChar = true) :
    IsCode text := by
  intro cs
  induction text with
  | nil => rfl
  | cons c text ih =>
      obtain ⟨hc, htext⟩ : isCodeChar c = true ∧ text.all isCodeChar = true := by simpa using h
      rw [List.cons_append, uncomment_cons hc, ih htext, List.cons_append]

/-- The region of what a scan has left open. -/
def Scan.region : Scan → Region
  | .between => .code
  | .word _ => .code
  | .quoted _ => .string
  | .escape _ => .escape

/-- Inside a string there are no comments. -/
theorem uncomment_string {m : Scan} {text : List Char} (hm : m.finish = none)
    (h : (scanned m text).1 = []) (cs : List Char) :
    uncomment m.region (text ++ cs) = text ++ uncomment (scanned m text).2.region cs := by
  induction text generalizing m with
  | nil => rfl
  | cons c text ih =>
      obtain ⟨hfirst, hrest⟩ : (m.step c).1 = [] ∧ (scanned (m.step c).2 text).1 = [] := by
        simpa [scanned] using h
      cases m with
      | between => cases hm
      | word chars => cases hm
      | quoted body =>
          rw [List.cons_append, scanned]
          by_cases hquote : c = '"'
          · simp [Scan.step, hquote] at hfirst
          · by_cases hback : c = '\\'
            · subst hback
              exact congrArg _ (ih (m := .escape (body ++ ['\\'])) rfl hrest)
            · have hstep : Scan.step (.quoted body) c = ([], .quoted (body ++ [c])) := by
                simp [Scan.step, hquote, hback]
              rw [hstep] at hrest ⊢
              have hkept : uncomment .string (c :: (text ++ cs)) =
                  c :: uncomment .string (text ++ cs) := by
                rw [uncomment]
                · rintro rfl
                  exact hquote rfl
                · rintro rfl
                  exact hback rfl
              exact hkept.trans (congrArg _ (ih rfl hrest))
      | escape body =>
          have hkept : uncomment .escape (c :: (text ++ cs)) =
              c :: uncomment .string (text ++ cs) := by rw [uncomment]
          exact hkept.trans (congrArg _ (ih (m := .quoted (body ++ [c])) rfl hrest))

/-- A string, by what stands between its quotes. -/
theorem isCode_string {body : List Char} (h : scanned (.quoted []) body = ([], .quoted body)) :
    IsCode ('"' :: body ++ ['"']) := by
  intro cs
  have hinside := uncomment_string (m := .quoted []) rfl (congrArg Prod.fst h) ('"' :: cs)
  rw [h] at hinside
  have hform : '"' :: body ++ ['"'] ++ cs = '"' :: (body ++ '"' :: cs) := by simp
  rw [hform, uncomment]
  refine (congrArg _ hinside).trans ?_
  simp [Scan.region, uncomment]

/-- A quoted string has no comments. -/
theorem isCode_quote (s : String) : IsCode (quote s).toList := by
  rw [quote, String.toList_ofList]
  exact isCode_string (scanned_flatMap_escapeChar s.toList [])

/-- Texts without comments can be joined. -/
theorem isCode_joinWith {separator : String} (hseparator : IsCode separator.toList)
    {texts : List String} (h : ∀ text ∈ texts, IsCode text.toList) :
    IsCode (joinWith separator texts).toList := by
  induction texts with
  | nil => exact isCode_nil
  | cons text rest ih =>
      obtain ⟨htext, hrest⟩ := List.forall_mem_cons.mp h
      cases rest with
      | nil => exact htext
      | cons next rest =>
          have hjoin : (joinWith separator (text :: next :: rest)).toList =
              text.toList ++ separator.toList ++ (joinWith separator (next :: rest)).toList := by
            simp [joinWith]
          rw [hjoin]
          exact (htext.append hseparator).append (ih hrest)

/-- A comma separated list of texts without comments. -/
theorem isCode_commaList {texts : List String} (h : ∀ text ∈ texts, IsCode text.toList) :
    IsCode (commaList texts).toList :=
  isCode_joinWith (isCode_of_all (by decide)) h

/-- A word has no comments. -/
theorem isCode_of_isNameChar {text : List Char} (h : text.all isNameChar = true) :
    IsCode text := by
  apply isCode_of_all
  rw [List.all_eq_true] at h ⊢
  intro c hc
  have hslash : c ≠ '/' := by
    rintro rfl
    exact absurd (h _ hc) (by decide)
  have hquote : c ≠ '"' := by
    rintro rfl
    exact absurd (h _ hc) (by decide)
  simp [isCodeChar, hslash, hquote]

/-- An identifier has no comments. -/
theorem HostName.IsProper.isCode {n : HostName} (h : n.IsProper) : IsCode n.text.toList :=
  isCode_of_isNameChar (Atom.name_text h).2

/-- A number has no comments. -/
theorem isCode_natText (n : Nat) : IsCode (natText n).toList := by
  apply isCode_of_isNameChar
  rw [List.all_eq_true]
  intro c hc
  have hdigit := isDigit_of_mem_natText hc
  simp [isNameChar, HostName.isWordChar, Char.isAlphanum, hdigit]

private theorem isCode_intText (v : Int) : IsCode (intText v).toList := by
  cases v with
  | ofNat n => exact isCode_natText n
  | negSucc n =>
      rw [intText, String.toList_append]
      exact (isCode_of_all (by decide)).append (isCode_natText (n + 1))

/-- A piece of a text that is the same everywhere. -/
theorem isCode_literal {text : String} (h : text.toList.all isCodeChar = true) :
    IsCode text.toList :=
  isCode_of_all h

namespace HostExpr

/-- The arguments of a call have no comments. -/
theorem isCode_arguments {args : List HostExpr}
    (h : ∀ a ∈ args, a.isInt = false → IsCode a.text.toList) :
    IsCode (commaList (texts args)).toList := by
  rw [texts_eq_map]
  refine isCode_commaList (List.forall_mem_map.mpr fun a ha => ?_)
  cases a with
  | int v => exact isCode_intText v
  | _ => exact h _ ha rfl

/-- The text of an operand holds no comment: the sign of a division stands between spaces. -/
theorem Operand.isCode {e : HostExpr} (h : Operand e) : IsCode e.text.toList := by
  induction h with
  | name hn => exact hn.isCode
  | self => exact isCode_literal (by decide)
  | field _ hn he =>
      rw [text, String.toList_append, String.toList_append]
      exact (he.append (isCode_literal (by decide))).append hn.isCode
  | bool b => cases b <;> exact isCode_literal (by decide)
  | str s => exact isCode_quote s
  | call hf _ hargs =>
      simp only [text, String.toList_append]
      exact ((hf.isCode.append (isCode_literal (by decide))).append
        (isCode_arguments hargs)).append (isCode_literal (by decide))
  | selfCall hf =>
      simp only [text, String.toList_append]
      exact ((isCode_literal (by decide)).append hf.isCode).append (isCode_literal (by decide))
  | method _ hm _ he hargs =>
      have hname : IsCode (HostName.text (.plain _)).toList := HostName.IsProper.isCode hm
      simp only [text, String.toList_append]
      exact ((((he.append (isCode_literal (by decide))).append hname).append
        (isCode_literal (by decide))).append (isCode_arguments hargs)).append
          (isCode_literal (by decide))
  | prefixed op _ he =>
      simp only [text, String.toList_append]
      refine (((isCode_literal (by decide)).append ?_).append he).append
        (isCode_literal (by decide))
      cases op <;> exact isCode_literal (by decide)
  | @infixed l r op _ _ hl hr =>
      have hsign : IsCode (" " ++ op.sign ++ " ").toList := by
        cases op with
        | div => exact fun _ => rfl
        | _ => exact isCode_literal (by decide)
      have htext : (HostExpr.infixed op l r).text.toList = "(".toList ++ l.text.toList ++
          (" " ++ op.sign ++ " ").toList ++ r.text.toList ++ ")".toList := by
        simp [text]
      rw [htext]
      exact ((((isCode_literal (by decide)).append hl).append hsign).append hr).append
        (isCode_literal (by decide))

end HostExpr

/-! ### Pieces of code -/

/-- A piece of code with these tokens, if no word goes on behind it. -/
structure Spelled (text : String) (ts : List Token) : Prop where
  isCode : IsCode text.toList
  lexes : Lexes text.toList ts

/-- A piece of code with these tokens, whatever stands behind it. -/
structure Closed (text : String) (ts : List Token) : Prop where
  isCode : IsCode text.toList
  lexes : ∀ cs, lex (text.toList ++ cs) = (lex cs).map (ts ++ ·)

/-- A text that is complete at its end is spelled out wherever it stands. -/
theorem Closed.spelled {text : String} {ts : List Token} (h : Closed text ts) : Spelled text ts :=
  ⟨h.isCode, fun cs _ => h.lexes cs⟩

/-- An identifier is spelled out as one word. -/
theorem HostName.IsProper.spelled {n : HostName} (h : n.IsProper) :
    Spelled n.text [.word n.text] :=
  ⟨h.isCode, h.lexes⟩

/-- An operand is spelled out as its tokens. -/
theorem HostExpr.Operand.spelled {e : HostExpr} (h : e.Operand) : Spelled e.text e.tokens :=
  ⟨h.isCode, h.lexes⟩

/-- A quoted string is spelled out as one token. -/
theorem spelled_quote (s : String) :
    Spelled (quote s) [.quoted (s.toList.flatMap escapeChar)] :=
  ⟨isCode_quote s, lexes_quote s⟩

/-- A comma separated list is spelled out as its members. -/
theorem spelled_commaList {α : Type} {xs : List α} {f : α → String} {g : α → List Token}
    (h : ∀ x ∈ xs, Spelled (f x) (g x)) :
    Spelled (commaList (xs.map f)) (commaTokens (xs.map g)) :=
  ⟨isCode_commaList (List.forall_mem_map.mpr fun x hx => (h x hx).isCode),
    lexes_commaList fun x hx => (h x hx).lexes⟩

/-- Whether a text that is the same everywhere has these tokens, and no comment. -/
def isFixed (text : String) (ts : List Token) : Bool :=
  decide (scanned .between text.toList = (ts, .between)) && text.toList.all isCodeChar

/-- Whether a text does not go on with a word before it. -/
def isBreak (text : String) : Bool :=
  match text.toList with
  | [] => false
  | c :: _ => !isNameChar c

/-- A fixed text is complete at its end if it can be read, which is computed. -/
theorem closed_fixed (text : String) (ts : List Token)
    (h : isFixed text ts = true := by decide +kernel) : Closed text ts := by
  obtain ⟨hscan, hall⟩ :
      scanned .between text.toList = (ts, .between) ∧ text.toList.all isCodeChar = true := by
    rw [isFixed, Bool.and_eq_true, decide_eq_true_eq] at h
    exact h
  exact ⟨isCode_of_all hall, lex_append_closed hscan⟩

/-- A piece with a fixed text behind it that no word goes on with. -/
theorem Closed.slot {front text : String} {fs ts : List Token} (hfront : Closed front fs)
    (h : Spelled text ts) (back : String) (bs : List Token)
    (hback : (isFixed back bs && isBreak back) = true := by decide +kernel) :
    Closed (front ++ text ++ back) (fs ++ ts ++ bs) := by
  obtain ⟨hfixed, hbreak⟩ : isFixed back bs = true ∧ isBreak back = true := by simpa using hback
  have hlast := closed_fixed back bs hfixed
  have hbreaks : ∀ cs, Breaks (back.toList ++ cs) := by
    intro cs
    unfold isBreak at hbreak
    split at hbreak
    · cases hbreak
    · rename_i c rest hform
      rw [hform]
      exact breaks_cons.mpr (by simpa using hbreak)
  refine ⟨?_, fun cs => ?_⟩
  · rw [String.toList_append, String.toList_append]
    exact (hfront.isCode.append h.isCode).append hlast.isCode
  · have htext : (front ++ text ++ back).toList ++ cs =
        front.toList ++ (text.toList ++ (back.toList ++ cs)) := by simp
    rw [htext, hfront.lexes, h.lexes _ (hbreaks cs), hlast.lexes]
    simp [Function.comp_def]

/-- A piece at the end. -/
theorem Closed.last {front text : String} {fs ts : List Token} (hfront : Closed front fs)
    (h : Spelled text ts) : Spelled (front ++ text) (fs ++ ts) := by
  refine ⟨?_, fun cs hcs => ?_⟩
  · rw [String.toList_append]
    exact hfront.isCode.append h.isCode
  · rw [String.toList_append, List.append_assoc, hfront.lexes, h.lexes cs hcs]
    simp [Function.comp_def]

/-! ### Lines of code -/

/-- What does not go on with a word does not do so without comments either. -/
private theorem breaks_uncomment {cs : List Char} (h : Breaks cs) :
    Breaks (uncomment .code cs) := by
  have hspace : isNameChar ' ' = false := by decide
  have hquote : isNameChar '"' = false := by decide
  unfold uncomment
  split
  · exact breaks_nil
  · exact breaks_cons.mpr hspace
  · exact breaks_cons.mpr hspace
  · exact breaks_cons.mpr hquote
  · exact breaks_cons.mpr (breaks_cons.mp h)
  all_goals contradiction

/-- A text that is spelled out has its tokens in front of any others. -/
private theorem Spelled.codeTokens_append {text : String} {ts : List Token} (h : Spelled text ts)
    {cs : List Char} (hcs : Breaks cs) :
    codeTokens (text.toList ++ cs) = (codeTokens cs).map (ts ++ ·) := by
  unfold codeTokens
  rw [h.isCode, h.lexes _ (breaks_uncomment hcs)]

/-- A line break in front is no token. -/
theorem codeTokens_newline (cs : List Char) : codeTokens ('\n' :: cs) = codeTokens cs := by
  unfold codeTokens
  rw [uncomment_cons (by decide), lex_newline]

/-- Indentation has no tokens. -/
theorem codeTokens_replicate_space (n : Nat) (cs : List Char) :
    codeTokens (List.replicate n ' ' ++ cs) = codeTokens cs := by
  have hspaces : IsCode (List.replicate n ' ') := by
    apply isCode_of_all
    rw [List.all_eq_true]
    intro c hc
    rw [List.eq_of_mem_replicate hc]
    decide
  unfold codeTokens
  rw [hspaces, lex_replicate_space]

/-- **A line of code** has its tokens at every level of indentation. -/
theorem Spelled.codeTokens_indented {text : String} {ts : List Token} (h : Spelled text ts)
    (level : Nat) (cs : List Char) :
    codeTokens (indented level text ++ cs) = (codeTokens cs).map (ts ++ ·) := by
  have hbreak : Breaks ('\n' :: cs) := breaks_cons.mpr (by decide)
  have hline := h.codeTokens_append hbreak
  rw [codeTokens_newline] at hline
  unfold indented
  split
  · rename_i hempty
    have hnil : text.toList = [] := by simpa using hempty
    rw [hnil, List.nil_append, codeTokens_newline] at hline
    rw [List.singleton_append, codeTokens_newline]
    exact hline
  · rw [List.append_assoc, List.append_assoc, codeTokens_replicate_space, List.singleton_append]
    exact hline

/-- A comment goes to the end of its line. -/
private theorem uncomment_lineComment {text : List Char} (h : '\n' ∉ text) (cs : List Char) :
    uncomment .lineComment (text ++ '\n' :: cs) = '\n' :: uncomment .code cs := by
  induction text with
  | nil => rw [List.nil_append, uncomment]
  | cons c text ih =>
      obtain ⟨hc, htext⟩ : c ≠ '\n' ∧ '\n' ∉ text := by simpa [eq_comm] using h
      have hskip : uncomment .lineComment (c :: (text ++ '\n' :: cs)) =
          uncomment .lineComment (text ++ '\n' :: cs) := by
        rw [uncomment]
        rintro rfl
        exact hc rfl
      rw [List.cons_append, hskip, ih htext]

/-- **A comment** has no tokens. -/
theorem codeTokens_comment (mark : CommentMark) {text : String} (h : OneLine text) (level : Nat)
    (cs : List Char) : codeTokens (indented level (commented mark.text text) ++ cs) =
      codeTokens cs := by
  obtain ⟨rest, hrest, hform⟩ : ∃ rest : List Char, '\n' ∉ rest ∧
      (commented mark.text text).toList = '/' :: '/' :: rest := by
    have htext : '\n' ∉ text.toList := h
    unfold commented
    cases mark with
    | doc =>
        split
        · exact ⟨['/'], by decide, by decide⟩
        · exact ⟨'/' :: ' ' :: text.toList, by simp [htext], by simp [CommentMark.text]⟩
    | note =>
        split
        · exact ⟨[], by decide, by decide⟩
        · exact ⟨' ' :: text.toList, by simp [htext], by simp [CommentMark.text]⟩
  have hne : ¬ (commented mark.text text).isEmpty = true := by
    intro hempty
    have hnil : (commented mark.text text).toList = [] := by simpa using hempty
    rw [hform] at hnil
    cases hnil
  unfold indented
  rw [if_neg hne, hform, List.append_assoc, List.append_assoc, codeTokens_replicate_space]
  unfold codeTokens
  simp only [List.cons_append, List.nil_append]
  rw [uncomment, uncomment_lineComment hrest, lex_space, lex_newline]

end HdlSim
