import HdlSim.Host.Expr
import HdlSim.Proofs.Literal

/-!
# Tokens of host code

Host code is read in two stages, and this is the first: characters become words, quoted strings and
single signs, and white space only separates them.  Reading goes through the characters once; what
has been read so far leaves a word or a string open, or nothing (`Scan`).

The text of a word, a string or a sign can be cut off at the front (`lex_word`, `lex_quote`,
`lex_sign`), provided that the text behind a word does not go on with it.
-/

namespace HdlSim

/-- A token of host code. -/
inductive Token where
  /-- A name, a keyword or a number. -/
  | word (text : String)
  /-- A string literal, by what stands between its quotes. -/
  | quoted (body : List Char)
  /-- Any other character; operators of two characters are two signs. -/
  | sign (c : Char)
deriving DecidableEq

/-- Whether a character continues a word.  The mark of raw identifiers belongs to their word. -/
def isNameChar (c : Char) : Bool := HostName.isWordChar c || c == '#'

/-- What the characters read so far leave open. -/
inductive Scan where
  | between
  | word (chars : List Char)
  | quoted (body : List Char)
  /-- Inside quotes, behind a backslash. -/
  | escape (body : List Char)
deriving DecidableEq

namespace Scan

/-- The tokens that are complete after a character between tokens, and what it leaves open. -/
def start (c : Char) : List Token × Scan :=
  if c = ' ' ∨ c = '\n' then ([], .between)
  else if c = '"' then ([], .quoted [])
  else if isNameChar c then ([], .word [c])
  else ([.sign c], .between)

/-- The tokens that are complete after one more character, and what it leaves open. -/
def step : Scan → Char → List Token × Scan
  | .between, c => start c
  | .word cs, c =>
    if isNameChar c then ([], .word (cs ++ [c]))
    else (.word (String.ofList cs) :: (start c).1, (start c).2)
  | .quoted body, c =>
    if c = '"' then ([.quoted body], .between)
    else if c = '\\' then ([], .escape (body ++ [c]))
    else ([], .quoted (body ++ [c]))
  | .escape body, c => ([], .quoted (body ++ [c]))

/-- The tokens at the end of the text; a string must not be left open. -/
def finish : Scan → Option (List Token)
  | .between => some []
  | .word cs => some [.word (String.ofList cs)]
  | .quoted _ => none
  | .escape _ => none

end Scan

/-- The tokens of a text, after what is left open before it. -/
def lexFrom (open_ : Scan) : List Char → Option (List Token)
  | [] => open_.finish
  | c :: cs => (lexFrom (open_.step c).2 cs).map ((open_.step c).1 ++ ·)

/-- The tokens of a text. -/
def lex (text : List Char) : Option (List Token) := lexFrom .between text

/-- The tokens that are complete after some characters, and what they leave open. -/
def scanned (open_ : Scan) : List Char → List Token × Scan
  | [] => ([], open_)
  | c :: cs =>
    ((open_.step c).1 ++ (scanned (open_.step c).2 cs).1, (scanned (open_.step c).2 cs).2)

/-- A text that does not go on with a word before it. -/
def Breaks (text : List Char) : Prop := ∀ c, text.head? = some c → isNameChar c = false

/-- Nothing goes on with a word. -/
@[simp] theorem breaks_nil : Breaks [] := by simp [Breaks]

/-- A character goes on with a word if and only if it can stand in one. -/
@[simp] theorem breaks_cons {c : Char} {cs : List Char} :
    Breaks (c :: cs) ↔ isNameChar c = false := by simp [Breaks]

/-- The tokens of two texts in a row, from any state of the scanner. -/
theorem lexFrom_append (m : Scan) (as bs : List Char) :
    lexFrom m (as ++ bs) = (lexFrom (scanned m as).2 bs).map ((scanned m as).1 ++ ·) := by
  induction as generalizing m with
  | nil => simp [scanned]
  | cons c cs ih =>
      rw [List.cons_append, lexFrom, ih]
      simp [scanned, Function.comp_def]

/-- Text that leaves nothing open can be cut off at the front. -/
theorem lex_append_closed {as : List Char} {ts : List Token}
    (h : scanned .between as = (ts, .between)) (bs : List Char) :
    lex (as ++ bs) = (lex bs).map (ts ++ ·) := by
  unfold lex
  rw [lexFrom_append, h]

@[simp] theorem lex_nil : lex [] = some [] := rfl

/-- A space in front is no token. -/
@[simp] theorem lex_space (cs : List Char) : lex (' ' :: cs) = lex cs := by
  have h := lex_append_closed (show scanned .between [' '] = ([], .between) from rfl) cs
  simpa using h

/-- A line break in front is no token. -/
@[simp] theorem lex_newline (cs : List Char) : lex ('\n' :: cs) = lex cs := by
  have h := lex_append_closed (show scanned .between ['\n'] = ([], .between) from rfl) cs
  simpa using h

/-- Spaces in front are no tokens. -/
theorem lex_replicate_space (n : Nat) (cs : List Char) :
    lex (List.replicate n ' ' ++ cs) = lex cs := by
  induction n with
  | zero => rfl
  | succ n ih => rw [List.replicate_succ, List.cons_append, lex_space, ih]

/-- A character that stands for itself. -/
def isSign (c : Char) : Bool := c != ' ' && c != '\n' && c != '"' && !isNameChar c

/-- A sign in front is a token by itself. -/
theorem lex_sign {c : Char} (hc : isSign c = true) (cs : List Char) :
    lex (c :: cs) = (lex cs).map (.sign c :: ·) := by
  simp only [isSign, Bool.and_eq_true, bne_iff_ne, Bool.not_eq_true'] at hc
  obtain ⟨⟨⟨hspace, hfeed⟩, hquote⟩, hname⟩ := hc
  have h : scanned .between [c] = ([.sign c], .between) := by
    simp [scanned, Scan.step, Scan.start, hspace, hfeed, hquote, hname]
  have happend := lex_append_closed h cs
  simpa using happend

/-! ### Words -/

/-- Characters of a word make it longer, and give no token yet. -/
private theorem scanned_word {w : List Char} (hw : w.all isNameChar = true) (cs : List Char) :
    scanned (.word cs) w = ([], .word (cs ++ w)) := by
  induction w generalizing cs with
  | nil => simp [scanned]
  | cons c w ih =>
      simp only [List.all_cons, Bool.and_eq_true] at hw
      simp [scanned, Scan.step, hw.1, ih hw.2]

/-- A name character is neither white space nor a quote. -/
theorem start_of_isNameChar {c : Char} (hc : isNameChar c = true) :
    Scan.start c = ([], .word [c]) := by
  have hspace : c ≠ ' ' := by rintro rfl; exact absurd hc (by decide)
  have hfeed : c ≠ '\n' := by rintro rfl; exact absurd hc (by decide)
  have hquote : c ≠ '"' := by rintro rfl; exact absurd hc (by decide)
  simp [Scan.start, hspace, hfeed, hquote, hc]

/-- **Words.**  A word is one token, if what follows does not go on with it. -/
theorem lex_word {w : String} (hne : w.toList ≠ []) (hw : w.toList.all isNameChar = true)
    {cs : List Char} (hcs : Breaks cs) :
    lex (w.toList ++ cs) = (lex cs).map (.word w :: ·) := by
  obtain ⟨c, rest, hform⟩ := List.exists_cons_of_ne_nil hne
  rw [hform, List.all_cons, Bool.and_eq_true] at hw
  have hscan : scanned .between w.toList = ([], .word w.toList) := by
    rw [hform]
    simp [scanned, Scan.step, start_of_isNameChar hw.1, scanned_word hw.2]
  unfold lex
  rw [lexFrom_append, hscan]
  cases cs with
  | nil => simp [lexFrom, Scan.finish]
  | cons d cs =>
      have hd : isNameChar d = false := by simpa using hcs
      simp [lexFrom, Scan.step, hd, Function.comp_def]

/-! ### Quoted strings -/

/-- To scan two texts in a row is to scan the second from where the first leads. -/
theorem scanned_append (m : Scan) (as bs : List Char) :
    scanned m (as ++ bs) =
      ((scanned m as).1 ++ (scanned (scanned m as).2 bs).1, (scanned (scanned m as).2 bs).2) := by
  induction as generalizing m with
  | nil => simp [scanned]
  | cons c cs ih => simp [scanned, ih]

/-- Plain characters make a quoted string longer. -/
theorem scanned_plain {cs : List Char} (hcs : ∀ c ∈ cs, c ≠ '"' ∧ c ≠ '\\') (body : List Char) :
    scanned (.quoted body) cs = ([], .quoted (body ++ cs)) := by
  induction cs generalizing body with
  | nil => simp [scanned]
  | cons c cs ih =>
      obtain ⟨hquote, hback⟩ := hcs c List.mem_cons_self
      have hrest := ih (fun d hd => hcs d (List.mem_cons_of_mem _ hd))
      simp [scanned, Scan.step, hquote, hback, hrest]

/-- The written form of a character stays inside the quotes. -/
theorem scanned_escapeChar (c : Char) (body : List Char) :
    scanned (.quoted body) (Text.escapeChar c) = ([], .quoted (body ++ Text.escapeChar c)) := by
  rcases Text.escapeChar_cases c with ⟨e, -, -, hform⟩ | hform | ⟨hquote, hback, hform⟩
  · simp [hform, scanned, Scan.step]
  · have hdigits : ∀ d ∈ '\x7b' :: (Nat.toDigits 16 c.toNat ++ ['\x7d']), d ≠ '"' ∧ d ≠ '\\' := by
      intro d hd
      rcases List.mem_cons.mp hd with rfl | hd
      · decide
      rcases List.mem_append.mp hd with hd | hd
      · obtain ⟨k, hk, rfl⟩ := Text.mem_toDigits_sixteen hd
        exact ⟨(Text.digitChar_plain hk).1, (Text.digitChar_plain hk).2.1⟩
      · rw [List.mem_singleton.mp hd]
        decide
    have hrest := scanned_plain hdigits (body ++ ['\\', 'u'])
    rw [hform, Text.escapeCode_eq]
    simpa [scanned, Scan.step] using hrest
  · simp [hform, scanned, Scan.step, hquote, hback]

/-- Escaped characters make a quoted string longer; none of them ends it. -/
theorem scanned_flatMap_escapeChar (cs body : List Char) :
    scanned (.quoted body) (cs.flatMap Text.escapeChar) =
      ([], .quoted (body ++ cs.flatMap Text.escapeChar)) := by
  induction cs generalizing body with
  | nil => simp [scanned]
  | cons c cs ih => simp [scanned_append, scanned_escapeChar, ih]

/-- **Strings.**  A quoted string is one token, whatever stands in it. -/
theorem lex_quote (s : String) (cs : List Char) :
    lex ((Text.quote s).toList ++ cs) =
      (lex cs).map (.quoted (s.toList.flatMap Text.escapeChar) :: ·) := by
  have h : scanned .between (Text.quote s).toList =
      ([.quoted (s.toList.flatMap Text.escapeChar)], .between) := by
    rw [Text.quote, String.toList_ofList]
    simp [scanned, Scan.step, Scan.start, scanned_append, scanned_flatMap_escapeChar]
  rw [lex_append_closed h]
  rfl

end HdlSim
