import HdlSim.Proofs.Locals
import HdlSim.Proofs.Quotation

/-!
# Strings in code

The string literals of some code, outside of its comments, each with the text that it denotes
(`readStrings`).  The strings of an expression and of a line are collected from their syntax
(`HostExpr.strings`, `Line.strings`), and these are what is read from their tokens
(`HostExpr.stringTexts_tokens`, `Line.stringTexts_tokens`).  Code that is written piece by piece has
the strings of the pieces one behind the other (`piecewise_strings`).
-/

namespace HdlSim

open Text Script HostExpr

/-! ### Strings in code -/

/-- The texts that the string literals among some tokens denote, in order. -/
def stringTexts : List Token → Option (List String)
  | [] => some []
  | .quoted body :: ts =>
    (unescape body).bind fun text => (stringTexts ts).map (String.ofList text :: ·)
  | .word _ :: ts => stringTexts ts
  | .sign _ :: ts => stringTexts ts

/-- **The strings of some code**, outside of comments: the texts that its literals denote. -/
def readStrings (code : String) : Option (List String) := (codeTokens code.toList).bind stringTexts

section

variable {α : Type} (ts us : List Token)

@[simp] theorem stringTexts_nil : stringTexts [] = some [] := rfl

@[simp] theorem stringTexts_word (w : String) : stringTexts (.word w :: ts) = stringTexts ts := rfl

@[simp] theorem stringTexts_sign (c : Char) : stringTexts (.sign c :: ts) = stringTexts ts := rfl

/-- A quoted string is read as the text that was quoted. -/
@[simp] private theorem stringTexts_quoted (s : String) :
    stringTexts (.quoted (s.toList.flatMap escapeChar) :: ts) = (stringTexts ts).map (s :: ·) := by
  simp [stringTexts, unescape_flatMap_escapeChar]

/-- A string token is read as its text. -/
@[simp] theorem stringTexts_str (s : String) :
    stringTexts (.str s :: ts) = (stringTexts ts).map (s :: ·) :=
  stringTexts_quoted ts s

/-- The strings in two lists of tokens. -/
@[simp] theorem stringTexts_append :
    stringTexts (ts ++ us) =
      (stringTexts ts).bind fun front => (stringTexts us).map (front ++ ·) := by
  induction ts with
  | nil => simp
  | cons t ts ih =>
      cases t with
      | word w => exact ih
      | sign c => exact ih
      | quoted body =>
          rw [List.cons_append, stringTexts, ih, stringTexts]
          cases unescape body with
          | none => rfl
          | some text => cases stringTexts ts <;> simp [Function.comp_def]

/-- Pieces of code with a separator between them. -/
theorem stringTexts_joinTokens {separator : List Token}
    (hseparator : stringTexts separator = some []) {xs : List α} {texts : α → List String}
    {tokens : α → List Token} (h : ∀ x ∈ xs, stringTexts (tokens x) = some (texts x)) :
    stringTexts (joinTokens separator (xs.map tokens)) = some (xs.flatMap texts) := by
  induction xs with
  | nil => rfl
  | cons x xs ih =>
      obtain ⟨hx, hxs⟩ := List.forall_mem_cons.mp h
      cases xs with
      | nil => simpa [joinTokens] using hx
      | cons y ys =>
          have hform : joinTokens separator ((x :: y :: ys).map tokens) =
              tokens x ++ separator ++ joinTokens separator ((y :: ys).map tokens) := rfl
          rw [hform, stringTexts_append, stringTexts_append, hx, hseparator, ih hxs]
          simp

/-- The strings in lists of tokens, with commas between them. -/
theorem stringTexts_commaTokens {xs : List α} {texts : α → List String}
    {tokens : α → List Token} (h : ∀ x ∈ xs, stringTexts (tokens x) = some (texts x)) :
    stringTexts (commaTokens (xs.map tokens)) = some (xs.flatMap texts) :=
  stringTexts_joinTokens rfl h

/-- A list of string literals. -/
@[simp] theorem stringTexts_strs (ss : List String) :
    stringTexts (commaTokens (ss.map fun s => [Token.str s])) = some ss := by
  have hlist : stringTexts (commaTokens (ss.map fun s => [Token.str s])) =
      some (ss.flatMap fun s => [s]) := stringTexts_commaTokens fun s _ => by simp
  simpa using hlist

end

/-! ### Strings in values and lines -/

namespace HostExpr

mutual

/-- The strings in an expression. -/
def strings : HostExpr → List String
  | .str s => [s]
  | .strs ss => ss
  | .field owner _ => owner.strings
  | .call _ args => stringsOf args
  | .method receiver _ args => receiver.strings ++ stringsOf args
  | .prefixed _ e => e.strings
  | .infixed _ l r => l.strings ++ r.strings
  | .name _ | .self | .int _ | .bool _ | .selfCall _ => []

/-- The strings in some expressions, in order. -/
def stringsOf : List HostExpr → List String
  | [] => []
  | e :: es => e.strings ++ stringsOf es

end

/-- The strings in expressions are those in each of them. -/
theorem stringsOf_eq_flatMap (es : List HostExpr) : stringsOf es = es.flatMap strings := by
  induction es with
  | nil => rfl
  | cons e es ih => rw [stringsOf, ih, List.flatMap_cons]

mutual

/-- The tokens of an expression have its strings. -/
@[simp] theorem stringTexts_tokens : ∀ e : HostExpr, stringTexts e.tokens = some e.strings
  | .name _ | .self | .bool _ | .selfCall _ => rfl
  | .int (.ofNat _) | .int (.negSucc _) => rfl
  | .str s => by simp [strings, tokens]
  | .strs ss => by
      have hlist := stringTexts_strs ss
      unfold Token.str at hlist
      simp [strings, tokens, hlist]
  | .field owner n => by simp [strings, tokens, owner.stringTexts_tokens]
  | .call f args => by simp [strings, tokens, stringTexts_arguments args]
  | .method e m args => by
      simp [strings, tokens, e.stringTexts_tokens, stringTexts_arguments args]
  | .prefixed op e => by simp [strings, tokens, e.stringTexts_tokens]
  | .infixed op l r => by
      have hsign : stringTexts (op.chars.map Token.sign) = some [] := by cases op <;> rfl
      simp [strings, tokens, l.stringTexts_tokens, r.stringTexts_tokens, hsign]

/-- The strings in arguments. -/
@[simp] theorem stringTexts_arguments : ∀ es : List HostExpr,
    stringTexts (commaTokens (tokenLists es)) = some (stringsOf es)
  | [] => rfl
  | [e] => by simp [stringsOf, tokenLists, commaTokens, joinTokens, e.stringTexts_tokens]
  | e :: next :: es => by
      have hrest := stringTexts_arguments (next :: es)
      rw [tokenLists, commaTokens_cons _ (by simp [tokenLists])]
      simp [stringsOf, e.stringTexts_tokens, hrest]

end

end HostExpr

/-- The strings in a line.  The message about an unknown process is one of them. -/
def Line.strings : Line → List String
  | .result value | .letConst _ value | .writeInvalid value | .matchCond value
  | .letSelector value => value.strings
  | .letProxy _ label type init => label :: (type.strings ++ init.elim [] HostExpr.strings)
  | .letUnit _ _ label => [label]
  | .connect signal _ _ => signal.strings
  | .setInterfaces values | .setUnits values | .elseIfMatches values => stringsOf values
  | .setProcesses labels => labels
  | .setSensitivity label triggers => label :: triggers.flatMap fun t => t.proxy.strings
  | .setOutputs label values => label :: stringsOf values
  | .noProcess unit => [unit.text ++ " has no process \x7bindex\x7d"]
  | .write proxy value => proxy.strings ++ value.strings
  | .writeAt proxy index value => proxy.strings ++ index.strings ++ value.strings
  | .writeSlice proxy high low value =>
    proxy.strings ++ high.strings ++ low.strings ++ value.strings
  | _ => []

/-- Whether a line quotes its strings.  Only the message about an unknown process is written as it
stands. -/
def Line.quotes : Line → Bool
  | .noProcess _ => false
  | _ => true

/-- What stands between quotes without a backslash is what it looks like. -/
theorem unescape_plain {cs : List Char} (h : ∀ c ∈ cs, c ≠ '"' ∧ c ≠ '\\') :
    unescape cs = some cs := by
  unfold unescape
  induction cs with
  | nil => rfl
  | cons c cs ih =>
      obtain ⟨⟨hquote, hback⟩, hcs⟩ := List.forall_mem_cons.mp h
      rw [unescapeFrom.eq_def]
      simp [hquote, hback, ih hcs]

/-- The strings in an initial value. -/
@[simp] theorem stringTexts_initTokens (init : Option HostExpr) :
    stringTexts (initTokens init) = some (init.elim [] HostExpr.strings) := by
  cases init <;> simp [initTokens]

/-- The strings in triggers. -/
@[simp] theorem stringTexts_triggers (triggers : List HostTrigger) :
    stringTexts (commaTokens (triggers.map HostTrigger.tokens)) =
      some (triggers.flatMap fun t => t.proxy.strings) :=
  stringTexts_commaTokens fun t _ => by simp [HostTrigger.tokens]

/-- The strings in tests. -/
@[simp] theorem stringTexts_choiceTokens (choices : List HostExpr) :
    stringTexts (choiceTokens choices) = some (stringsOf choices) := by
  rw [stringsOf_eq_flatMap]
  exact stringTexts_joinTokens rfl fun c _ => by simp [testTokens]

/-- A line of code has its strings. -/
theorem Line.stringTexts_tokens {l : Line} (h : ∀ unit, l = .noProcess unit → unit.IsProper) :
    stringTexts l.tokens = some l.strings := by
  cases l with
  | noProcess unit =>
      -- Nothing is escaped here: the identifier of a model has neither quotes nor backslashes.
      have hbody := unescape_plain (message_plain (h unit rfl))
      have hstring : stringTexts
          [.quoted (unit.text.toList ++ " has no process \x7bindex\x7d".toList), .sign ')',
            .sign ','] = some (noProcess unit).strings := by
        rw [stringTexts, hbody, ← String.toList_append]
        simp [strings]
      exact hstring
  | setInterfaces values | setUnits values | setOutputs label values
  | setSensitivity label triggers | setProcesses labels =>
      simp [tokens, strings, vecTokens, registerTokens, memberTokens]
  | write proxy value | writeAt proxy index value | writeSlice proxy high low value
  | writeInvalid proxy =>
      simp [tokens, strings, callTokens, commaTokens, joinTokens]
  | connect signal unit port => simp [tokens, strings, memberTokens]
  | result value | letConst name value | matchCond value | letSelector value
  | letProxy name label type init | letUnit name module label | elseIfMatches choices =>
      simp [tokens, strings]
  | _ => rfl

/-! ### What scripts hold -/

/-- The string literals among the tokens denote these texts, in order. -/
def HasStrings (texts : List String) (ts : List Token) : Prop := stringTexts ts = some texts

/-- The strings of tokens can be put together. -/
theorem piecewise_strings : Piecewise HasStrings where
  nil := rfl
  append := by
    intro as bs ts us hts hus
    have hfront : stringTexts ts = some as := hts
    have hback : stringTexts us = some bs := hus
    simp [HasStrings, hfront, hback]

/-- A line that quotes its strings. -/
theorem hasStrings_line {l : Line} {texts : List String} (h : l.strings = texts)
    (hquotes : l.quotes = true) : HasStrings texts l.tokens := by
  subst h
  refine l.stringTexts_tokens fun unit hunit => ?_
  subst hunit
  cases hquotes

/-- A block, of which the first line has no strings. -/
theorem says_strings_enclosed {α : Type} {texts : List String} {l : Line} {body : Script α}
    (h : l.strings = []) (hquotes : l.quotes = true) (hbody : Says HasStrings texts body) :
    Says HasStrings texts (enclosed l body) := by
  refine says_enclosed fun a ha => ?_
  have hclose : HasStrings [] [Token.sign '\x7d'] := rfl
  have hrest := piecewise_strings.append (hbody a ha) hclose
  rw [List.append_nil] at hrest
  exact piecewise_strings.append (hasStrings_line h hquotes) hrest

end HdlSim
