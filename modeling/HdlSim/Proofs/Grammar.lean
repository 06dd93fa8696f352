import HdlSim.Proofs.Token

/-!
# The grammar of host expressions

What can be a name in the host language (`HostName.IsIdentifier`), and what can stand where a name
is due (`HostName.Stands`): the identifiers and the underscore.

Which tokens form which expression, as the host language has it (`Derives`).  Every expression has
a rank: what is attached behind an operand binds tightest, then the signs in front of one, then the
operators between two in the order of their own ranks.  Operators of one rank group to the left.  A
minus sign in front of an integer belongs to the number.
-/

namespace HdlSim

/-! ### Identifiers -/

/-- Whether characters form a word that can be an identifier. -/
def isName (cs : List Char) : Bool :=
  match cs with
  | [] => false
  | c :: _ => !c.isDigit && cs.all HostName.isWordChar

namespace HostName

/-- A letter or an underscore, and then letters, digits and underscores. -/
def IsWord (word : String) : Prop :=
  ∃ first rest, word.toList = first :: rest ∧ (first.isAlpha = true ∨ first = '_') ∧
    ∀ c ∈ rest, c.isAlphanum = true ∨ c = '_'

/-- The characters of words are letters, digits and the underscore. -/
theorem isWordChar_iff {c : Char} : isWordChar c = true ↔ c.isAlphanum = true ∨ c = '_' := by
  simp [isWordChar]

private theorem isDigit_of_isAlpha {c : Char} (h : c.isAlpha = true) : c.isDigit = false := by
  have hletter : (decide (65 ≤ c.val ∧ c.val ≤ 90) || 97 ≤ c.val && c.val ≤ 122) = true := h
  change (48 ≤ c.val && c.val ≤ 57) = false
  simp only [Bool.or_eq_true, Bool.and_eq_true, decide_eq_true_eq] at hletter
  simp only [Bool.and_eq_false_iff, decide_eq_false_iff_not]
  simp only [UInt32.le_iff_toNat_le, UInt32.reduceToNat] at hletter ⊢
  omega

/-- The characters with which a word can begin. -/
theorem isFirst_iff {c : Char} :
    c.isDigit = false ∧ isWordChar c = true ↔ c.isAlpha = true ∨ c = '_' := by
  rw [isWordChar_iff, Char.isAlphanum, Bool.or_eq_true]
  constructor
  · rintro ⟨hdigit, (hletter | hdigit') | hunder⟩
    · exact .inl hletter
    · rw [hdigit] at hdigit'
      cases hdigit'
    · exact .inr hunder
  · rintro (hletter | rfl)
    · exact ⟨isDigit_of_isAlpha hletter, .inl (.inl hletter)⟩
    · decide

/-- Words can be told by a test. -/
theorem isWord_iff {word : String} : IsWord word ↔ isName word.toList = true := by
  unfold IsWord
  cases word.toList with
  | nil => simp [isName]
  | cons c cs =>
      have hparts : isName (c :: cs) = true ↔
          (c.isDigit = false ∧ isWordChar c = true) ∧ ∀ d ∈ cs, isWordChar d = true := by
        simp [isName, and_assoc]
      rw [hparts, isFirst_iff]
      simp only [isWordChar_iff]
      constructor
      · rintro ⟨_, _, ⟨⟩, hfirst, hrest⟩
        exact ⟨hfirst, hrest⟩
      · rintro ⟨hfirst, hrest⟩
        exact ⟨c, cs, rfl, hfirst, hrest⟩

instance (word : String) : Decidable (IsWord word) :=
  decidable_of_iff (isName word.toList = true) isWord_iff.symm

/-- The keywords of the host language. -/
def languageKeywords : List String :=
  -- those in use
  ["as", "async", "await", "break", "const", "continue", "crate", "dyn", "else", "enum", "extern",
   "false", "fn", "for", "if", "impl", "in", "let", "loop", "match", "mod", "move", "mut", "pub",
   "ref", "return", "self", "Self", "static", "struct", "super", "trait", "true", "type", "unsafe",
   "use", "where", "while"] ++
  -- those kept for later use
  ["abstract", "become", "box", "do", "final", "gen", "macro", "override", "priv", "try", "typeof",
   "unsized", "virtual", "yield"]

/-- The words that are not even identifiers when they are raw. -/
def neverRaw : List String := ["self", "Self", "super", "crate", "_"]

/-- **An identifier of the host language**: a word that is no keyword, or a raw word that need not
be one. -/
def IsIdentifier (n : HostName) : Prop :=
  IsWord n.word ∧ n.word ∉ neverRaw ∧ (n.raw = false → n.word ∉ languageKeywords)

instance (n : HostName) : Decidable n.IsIdentifier := by
  unfold IsIdentifier; infer_instance

/-- The underscore.  It is no identifier, and nothing can be declared by it; it may be written where
an identifier is due, and stands for none. -/
def underscore : HostName := plain "_"

/-- What can be written where an identifier is due. -/
def Stands (n : HostName) : Prop := n.IsIdentifier ∨ n = underscore

instance (n : HostName) : Decidable n.Stands := by
  unfold Stands; infer_instance

/-- The name that is spelled like this. -/
def spelled (w : String) : HostName :=
  match w.toList with
  | 'r' :: '#' :: cs => ⟨true, String.ofList cs⟩
  | _ => plain w

/-- What a word is where an identifier is due. -/
def ofText? (w : String) : Option HostName :=
  if (spelled w).Stands then some (spelled w) else none

/-- The text of a name is how it is spelled. -/
theorem text_spelled (w : String) : (spelled w).text = w := by
  unfold spelled
  split
  · next cs hform =>
      rw [← String.toList_inj, hform]
      simp [text]
  · rfl

/-- The word of a name has no sign in it, also if the name is raw. -/
theorem Stands.isWord {n : HostName} (h : n.Stands) : IsWord n.word := by
  rcases h with h | rfl
  · exact h.1
  · decide

/-- A name is spelled as it is. -/
theorem Stands.spelled_text {n : HostName} (h : n.Stands) : spelled n.text = n := by
  obtain ⟨raw, word⟩ := n
  cases raw with
  | true =>
      have hform : (text ⟨true, word⟩).toList = 'r' :: '#' :: word.toList := by simp [text]
      simp [spelled, hform]
  | false =>
      obtain ⟨first, rest, hword, -, hrest⟩ := h.isWord
      unfold spelled
      split
      · -- The second character of a word is not the sign that makes a name raw.
        next cs hform =>
          rw [show text ⟨false, word⟩ = word from rfl, hword] at hform
          cases hform
          exact absurd (hrest '#' List.mem_cons_self) (by decide)
      · rfl

/-- Words are read as the names of which they are the texts. -/
theorem ofText?_eq_some_iff {w : String} {n : HostName} :
    ofText? w = some n ↔ n.text = w ∧ n.Stands := by
  unfold ofText?
  constructor
  · intro h
    obtain ⟨hstands, hn⟩ := Option.ite_none_right_eq_some.mp h
    rw [← Option.some.inj hn]
    exact ⟨text_spelled w, hstands⟩
  · rintro ⟨rfl, hstands⟩
    rw [hstands.spelled_text, if_pos hstands]

end HostName

/-! ### Words of expressions -/

/-- What a word stands for in an expression. -/
inductive Atom where
  | self
  | selfType
  | bool (value : Bool)
  | int (value : Nat)
  | name (name : HostName)
deriving DecidableEq

/-- What a word stands for, if anything. -/
def Atom.ofWord? (w : String) : Option Atom :=
  if w = "self" then some .self
  else if w = "Self" then some .selfType
  else if w = "true" then some (.bool true)
  else if w = "false" then some (.bool false)
  else
    match Text.readNat? w.toList with
    | some n => some (.int n)
    | none => (HostName.ofText? w).map .name

/-- The words for the model and for its type. -/
theorem Atom.eq_of_ofWord? {w : String} :
    (Atom.ofWord? w = some .self → w = "self") ∧
      (Atom.ofWord? w = some .selfType → w = "Self") := by
  unfold Atom.ofWord?
  split
  · simp_all
  split
  · simp_all
  split
  · simp
  split
  · simp
  split
  · simp
  · simp

/-- The rank of an operator; the higher rank binds tighter. -/
def HostInfix.rank : HostInfix → Nat
  | .mul | .div | .rem => 6
  | .add | .sub => 5
  | .shl | .shr => 4
  | .and => 3
  | .xor => 2
  | .or => 1

/-- The operator of one character. -/
def HostInfix.ofSign? (c : Char) : Option HostInfix :=
  if c = '+' then some .add
  else if c = '-' then some .sub
  else if c = '*' then some .mul
  else if c = '/' then some .div
  else if c = '%' then some .rem
  else if c = '&' then some .and
  else if c = '|' then some .or
  else if c = '^' then some .xor
  else none

/-- An operator in front of its operand; a minus sign becomes part of a number. -/
def HostPrefix.over : HostPrefix → HostExpr → HostExpr
  | .neg, .int (.ofNat n) => .int (-n)
  | op, e => .prefixed op e

/-- The sign of an operator in front of its operand. -/
def HostPrefix.char : HostPrefix → Char
  | .not => '!'
  | .neg => '-'

/-- The signs of an operator between its operands. -/
def HostInfix.chars : HostInfix → List Char
  | .add => ['+']
  | .sub => ['-']
  | .mul => ['*']
  | .div => ['/']
  | .rem => ['%']
  | .and => ['&']
  | .or => ['|']
  | .xor => ['^']
  | .shl => ['<', '<']
  | .shr => ['>', '>']

/-- Lists of tokens in order, with a separator between them. -/
def joinTokens (separator : List Token) : List (List Token) → List Token
  | [] => []
  | [ts] => ts
  | ts :: rest => ts ++ separator ++ joinTokens separator rest

/-- Lists of tokens with commas between them. -/
def commaTokens (tss : List (List Token)) : List Token := joinTokens [.sign ','] tss

/-- One more list in front, with a comma behind it. -/
theorem commaTokens_cons (ts : List Token) {rest : List (List Token)} (hne : rest ≠ []) :
    commaTokens (ts :: rest) = ts ++ .sign ',' :: commaTokens rest := by
  obtain ⟨us, rest, rfl⟩ := List.exists_cons_of_ne_nil hne
  simp [commaTokens, joinTokens]

/-- The rank of an operator in front of its operand. -/
def prefixRank : Nat := 7

/-- The rank of operands: names, literals, brackets, and what is attached behind an operand. -/
def postfixRank : Nat := 8

/-- **The grammar.**  The tokens form the expression, and nothing in it binds looser than the rank
unless it stands in brackets. -/
inductive Derives : Nat → List Token → HostExpr → Prop
  | self : Derives postfixRank [.word "self"] .self
  | bool {w : String} {b : Bool} (hw : Atom.ofWord? w = some (.bool b)) :
      Derives postfixRank [.word w] (.bool b)
  | int {w : String} {n : Nat} (hw : Atom.ofWord? w = some (.int n)) :
      Derives postfixRank [.word w] (.int n)
  | name {w : String} {n : HostName} (hw : Atom.ofWord? w = some (.name n)) :
      Derives postfixRank [.word w] (.name n)
  | str {body cs : List Char} (hbody : Text.unescape body = some cs) :
      Derives postfixRank [.quoted body] (.str (String.ofList cs))
  | group {ts : List Token} {e : HostExpr} (he : Derives 0 ts e) :
      Derives postfixRank (.sign '(' :: ts ++ [.sign ')']) e
  | selfCall {w : String} {f : HostName} (hw : Atom.ofWord? w = some (.name f)) :
      Derives postfixRank
        [.word "Self", .sign ':', .sign ':', .word w, .sign '(', .sign ')'] (.selfCall f)
  /-- A call, with the tokens and the tree of every argument. -/
  | call {w : String} {f : HostName} {args : List (List Token × HostExpr)}
      (hw : Atom.ofWord? w = some (.name f)) (hargs : ∀ a ∈ args, Derives 0 a.1 a.2) :
      Derives postfixRank (.word w :: .sign '(' :: commaTokens (args.map Prod.fst) ++ [.sign ')'])
        (.call f (args.map Prod.snd))
  | field {ts : List Token} {e : HostExpr} {w : String} {n : HostName}
      (he : Derives postfixRank ts e) (hw : Atom.ofWord? w = some (.name n)) :
      Derives postfixRank (ts ++ [.sign '.', .word w]) (.field e n)
  | method {ts : List Token} {e : HostExpr} {m : String} {n : HostName}
      {args : List (List Token × HostExpr)} (he : Derives postfixRank ts e)
      (hm : Atom.ofWord? m = some (.name n)) (hargs : ∀ a ∈ args, Derives 0 a.1 a.2) :
      Derives postfixRank
        (ts ++ .sign '.' :: .word m :: .sign '(' :: commaTokens (args.map Prod.fst) ++ [.sign ')'])
        (.method e m (args.map Prod.snd))
  | prefixed {ts : List Token} {e : HostExpr} (op : HostPrefix) (he : Derives prefixRank ts e) :
      Derives prefixRank (.sign op.char :: ts) (op.over e)
  /-- The left operand may have the same rank: operators group to the left. -/
  | infixed {ls rs : List Token} {l r : HostExpr} (op : HostInfix) (hl : Derives op.rank ls l)
      (hr : Derives (op.rank + 1) rs r) :
      Derives op.rank (ls ++ op.chars.map .sign ++ rs) (.infixed op l r)
  | looser {k j : Nat} {ts : List Token} {e : HostExpr} (he : Derives j ts e) (hk : k ≤ j) :
      Derives k ts e

/-- A sign in front of an operand binds tighter than any operator between two. -/
theorem HostInfix.rank_lt_prefixRank (op : HostInfix) : op.rank < prefixRank := by
  cases op <;> decide

/-- No expression begins with a closing bracket. -/
theorem Derives.head {k : Nat} {ts : List Token} {e : HostExpr} (h : Derives k ts e) :
    ∃ t us, ts = t :: us ∧ t ≠ .sign ')' := by
  induction h with
  | @field ts e w n he hw ih =>
      obtain ⟨t, us, rfl, ht⟩ := ih
      exact ⟨t, _, rfl, ht⟩
  | method he hm hargs ih =>
      obtain ⟨t, us, rfl, ht⟩ := ih
      exact ⟨t, _, rfl, ht⟩
  | prefixed op he ih => exact ⟨_, _, rfl, by cases op <;> simp [HostPrefix.char]⟩
  | infixed op hl hr ihl ihr =>
      obtain ⟨t, us, rfl, ht⟩ := ihl
      exact ⟨t, _, rfl, ht⟩
  | looser he hk ih => exact ih
  | _ => exact ⟨_, _, rfl, by simp⟩

end HdlSim
