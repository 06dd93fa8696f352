import HdlSim.Text.Join
import HdlSim.Text.Quoted

/-!
# Reading literals back

Numbers and quoted strings are read by the rules of the host language: a number is a word of decimal
digits, and inside quotes a backslash begins one of the short escapes or the number of a character
in hexadecimal digits.  Reading is the inverse of writing (`readNat?_natText`,
`unescape_flatMap_escapeChar`), whatever characters a text has.
-/

namespace HdlSim.Text

/-- The number that a word of decimal digits stands for. -/
def readNat? (digits : List Char) : Option Nat :=
  if digits ≠ [] ∧ digits.all Char.isDigit then some (Nat.ofDigitChars 10 digits 0) else none

/-- The value of a hexadecimal digit, in either case. -/
def hexValue? (c : Char) : Option Nat :=
  if c.isDigit then some (c.toNat - 48)
  else if 'a' ≤ c ∧ c ≤ 'f' then some (c.toNat - 87)
  else if 'A' ≤ c ∧ c ≤ 'F' then some (c.toNat - 55)
  else none

/-- The number that hexadecimal digits stand for, after those that gave `n`. -/
def hexNumber? (n : Nat) : List Char → Option Nat
  | [] => some n
  | c :: cs => (hexValue? c).bind fun d => hexNumber? (16 * n + d) cs

/-- The character with a number of one to six hexadecimal digits. -/
def charOfHex? (digits : List Char) : Option Char :=
  if 1 ≤ digits.length ∧ digits.length ≤ 6 then
    (hexNumber? 0 digits).bind fun n => if n.isValidChar then some (Char.ofNat n) else none
  else none

/-- The character that a letter behind a backslash stands for. -/
def shortEscape? (c : Char) : Option Char :=
  if c = '0' then some '\x00'
  else if c = 't' then some '\t'
  else if c = 'r' then some '\r'
  else if c = 'n' then some '\n'
  else if c = '\\' then some '\\'
  else if c = '"' then some '"'
  else none

/-- Reads what stands between quotes.  Inside the braces of a numbered character, `code` holds the
digits read so far. -/
def unescapeFrom (code : Option (List Char)) : List Char → Option (List Char)
  | [] => if code.isNone then some [] else none
  | c :: cs =>
    match code with
    | some digits =>
      if c = '\x7d' then (charOfHex? digits).bind fun d => (unescapeFrom none cs).map (d :: ·)
      else unescapeFrom (some (digits ++ [c])) cs
    | none =>
      if c = '"' then none
      else if c = '\\' then
        match cs with
        | 'u' :: '\x7b' :: cs => unescapeFrom (some []) cs
        | e :: cs => (shortEscape? e).bind fun d => (unescapeFrom none cs).map (d :: ·)
        | [] => none
      else (unescapeFrom none cs).map (c :: ·)

/-- The text that stands between quotes in this form. -/
def unescape (body : List Char) : Option (List Char) := unescapeFrom none body

/-! ### Numbers -/

/-- A number is written with digits only. -/
theorem isDigit_of_mem_natText {n : Nat} {c : Char} (hc : c ∈ (natText n).toList) :
    c.isDigit = true := by
  rw [natText, String.toList_ofList] at hc
  exact Nat.isDigit_of_mem_toDigits (by decide) (by decide) hc

/-- A number is written with at least one digit. -/
theorem natText_ne_nil (n : Nat) : (natText n).toList ≠ [] := by
  rw [natText, String.toList_ofList]
  exact Nat.toDigits_ne_nil

/-- The decimal digits of a number stand for it. -/
theorem readNat?_natText (n : Nat) : readNat? (natText n).toList = some n := by
  have hdigits : (natText n).toList.all Char.isDigit = true := by
    rw [List.all_eq_true]
    intro c hc
    exact isDigit_of_mem_natText hc
  rw [readNat?, if_pos ⟨natText_ne_nil n, hdigits⟩, natText, String.toList_ofList,
    Nat.ofDigitChars_ten_toDigits]

/-! ### Numbered characters -/

/-- A hexadecimal digit has its value. -/
theorem hexValue?_digitChar {d : Nat} (hd : d < 16) : hexValue? d.digitChar = some d := by
  have hall : ∀ d : Fin 16, hexValue? d.val.digitChar = some d.val := by decide
  exact hall ⟨d, hd⟩

/-- A hexadecimal digit ends neither a quoted string nor the number that it stands in. -/
theorem digitChar_plain {d : Nat} (hd : d < 16) :
    d.digitChar ≠ '"' ∧ d.digitChar ≠ '\\' ∧ d.digitChar ≠ '\x7d' := by
  have hall : ∀ d : Fin 16, d.val.digitChar ≠ '"' ∧ d.val.digitChar ≠ '\\' ∧
      d.val.digitChar ≠ '\x7d' := by decide
  exact hall ⟨d, hd⟩

/-- The digits of a hexadecimal number are read from the front. -/
private theorem hexNumber?_append {n m : Nat} {as bs : List Char} (h : hexNumber? n as = some m) :
    hexNumber? n (as ++ bs) = hexNumber? m bs := by
  induction as generalizing n with
  | nil =>
      obtain rfl : n = m := by simpa [hexNumber?] using h
      rfl
  | cons c cs ih =>
      rw [hexNumber?, Option.bind_eq_some_iff] at h
      obtain ⟨d, hd, hrest⟩ := h
      rw [List.cons_append, hexNumber?, hd, Option.bind_some, ih hrest]

/-- The digits of a number are digits of its base, and its last digit is the remainder. -/
theorem hexNumber?_toDigits (n : Nat) : hexNumber? 0 (Nat.toDigits 16 n) = some n := by
  induction n using Nat.strongRecOn with
  | ind n ih =>
      by_cases hn : n < 16
      · rw [Nat.toDigits_of_lt_base hn, hexNumber?, hexValue?_digitChar hn, Option.bind_some]
        simp [hexNumber?]
      · have hle : 16 ≤ n := by omega
        have hmod : n % 16 < 16 := Nat.mod_lt n (by decide)
        rw [Nat.toDigits_of_base_le (by decide) hle,
          hexNumber?_append (ih (n / 16) (Nat.div_lt_self (by omega) (by decide))),
          hexNumber?, hexValue?_digitChar hmod, Option.bind_some, hexNumber?, Nat.div_add_mod]

/-- A hexadecimal number is written with hexadecimal digits. -/
theorem mem_toDigits_sixteen {n : Nat} {c : Char} (hc : c ∈ Nat.toDigits 16 n) :
    ∃ d, d < 16 ∧ c = d.digitChar := by
  induction n using Nat.strongRecOn with
  | ind n ih =>
      by_cases hn : n < 16
      · rw [Nat.toDigits_of_lt_base hn, List.mem_singleton] at hc
        exact ⟨n, hn, hc⟩
      · have hle : 16 ≤ n := by omega
        rw [Nat.toDigits_of_base_le (by decide) hle, List.mem_append, List.mem_singleton] at hc
        rcases hc with hc | hc
        · exact ih (n / 16) (Nat.div_lt_self (by omega) (by decide)) hc
        · exact ⟨n % 16, Nat.mod_lt n (by decide), hc⟩

/-- The number of a character leads back to it. -/
theorem charOfHex?_toDigits (c : Char) : charOfHex? (Nat.toDigits 16 c.toNat) = some c := by
  have hvalid : c.toNat.isValidChar := c.valid
  have hbound : c.toNat < 16 ^ 6 := by
    rcases hvalid with h | ⟨_, h⟩ <;> omega
  have hlength : (Nat.toDigits 16 c.toNat).length ≤ 6 :=
    (Nat.length_toDigits_le_iff (by decide) (by decide)).mpr hbound
  have hpos : 1 ≤ (Nat.toDigits 16 c.toNat).length := Nat.length_toDigits_pos
  rw [charOfHex?, if_pos ⟨hpos, hlength⟩, hexNumber?_toDigits, Option.bind_some, if_pos hvalid,
    Char.ofNat_toNat]

/-! ### Quoted strings -/

/-- Digits in braces are collected up to the closing brace. -/
theorem unescapeFrom_digits {ds digits cs : List Char} (hds : ∀ c ∈ ds, c ≠ '\x7d') :
    unescapeFrom (some digits) (ds ++ '\x7d' :: cs) =
      (charOfHex? (digits ++ ds)).bind fun d => (unescapeFrom none cs).map (d :: ·) := by
  induction ds generalizing digits with
  | nil => simp [unescapeFrom]
  | cons c ds ih =>
      have hc : c ≠ '\x7d' := hds c List.mem_cons_self
      rw [List.cons_append, unescapeFrom, if_neg hc,
        ih (fun d hd => hds d (List.mem_cons_of_mem _ hd))]
      simp

/-- The three written forms of a character: a short escape, its number, or itself. -/
theorem escapeChar_cases (c : Char) :
    (∃ e, shortEscape? e = some c ∧ e ≠ 'u' ∧ escapeChar c = ['\\', e]) ∨
      escapeChar c = escapeCode c ∨ (c ≠ '"' ∧ c ≠ '\\' ∧ escapeChar c = [c]) := by
  by_cases hzero : c = '\x00'
  · exact .inl ⟨'0', by simp [shortEscape?, hzero], by decide, by simp [escapeChar, hzero]⟩
  by_cases htab : c = '\t'
  · exact .inl ⟨'t', by simp [shortEscape?, htab], by decide, by simp [escapeChar, htab]⟩
  by_cases hreturn : c = '\r'
  · exact .inl ⟨'r', by simp [shortEscape?, hreturn], by decide, by simp [escapeChar, hreturn]⟩
  by_cases hfeed : c = '\n'
  · exact .inl ⟨'n', by simp [shortEscape?, hfeed], by decide, by simp [escapeChar, hfeed]⟩
  by_cases hback : c = '\\'
  · exact .inl ⟨'\\', by simp [shortEscape?, hback], by decide, by simp [escapeChar, hback]⟩
  by_cases hquote : c = '"'
  · exact .inl ⟨'"', by simp [shortEscape?, hquote], by decide, by simp [escapeChar, hquote]⟩
  have hform : escapeChar c = if isHidden c then escapeCode c else [c] := by
    simp [escapeChar, hzero, htab, hreturn, hfeed, hback, hquote]
  cases hhidden : isHidden c with
  | true => exact .inr (.inl (by simp [hform, hhidden]))
  | false => exact .inr (.inr ⟨hquote, hback, by simp [hform, hhidden]⟩)

/-- The escape of a numbered character, sign by sign. -/
theorem escapeCode_eq (c : Char) :
    escapeCode c = '\\' :: 'u' :: '\x7b' :: (Nat.toDigits 16 c.toNat ++ ['\x7d']) := by
  simp [escapeCode]

/-- A character is read back from its written form. -/
theorem unescapeFrom_escapeChar (c : Char) (cs : List Char) :
    unescapeFrom none (escapeChar c ++ cs) = (unescapeFrom none cs).map (c :: ·) := by
  rcases escapeChar_cases c with ⟨e, he, hu, hform⟩ | hform | ⟨hquote, hback, hform⟩
  · rw [hform, List.cons_append, List.singleton_append, unescapeFrom.eq_def]
    simp [hu, he]
  · have hplain : ∀ d ∈ Nat.toDigits 16 c.toNat, d ≠ '\x7d' := by
      intro d hd
      obtain ⟨k, hk, rfl⟩ := mem_toDigits_sixteen hd
      exact (digitChar_plain hk).2.2
    have hcode : escapeChar c ++ cs =
        '\\' :: 'u' :: '\x7b' :: (Nat.toDigits 16 c.toNat ++ '\x7d' :: cs) := by
      simp [hform, escapeCode_eq]
    rw [hcode, unescapeFrom]
    simp [unescapeFrom_digits hplain, charOfHex?_toDigits]
  · rw [hform, List.singleton_append, unescapeFrom.eq_def]
    simp [hquote, hback]

/-- **Quoted strings denote the original text.** -/
theorem unescape_flatMap_escapeChar (cs : List Char) :
    unescape (cs.flatMap escapeChar) = some cs := by
  unfold unescape
  induction cs with
  | nil => rfl
  | cons c cs ih => rw [List.flatMap_cons, unescapeFrom_escapeChar, ih, Option.map_some]

end HdlSim.Text
