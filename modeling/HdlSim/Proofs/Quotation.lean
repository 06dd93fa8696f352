import HdlSim.Proofs.Token
import Mathlib.Data.List.Induction

/-!
# String literals

What makes a text a string literal: it stands between double quotes on a single line, no quote
inside it is left without a backslash, the one at its end is not taken away by a backslash, and what
stands between them denotes a text (`Text.IsLiteral`).  Whether a character is escaped is seen from
the backslashes right before it (`Text.escapesNext`).

A literal says where it ends, so nothing behind it can change what it denotes
(`Text.IsLiteral.append_inj`), and every text is denoted by the literal that is written for it
(`Text.isLiteral_quote`).
-/

namespace HdlSim

namespace Text

/-- Whether a character behind this text is escaped: an odd number of backslashes stands right
before it. -/
def escapesNext (front : List Char) : Bool := (front.reverse.takeWhile (· == '\\')).length % 2 == 1

/-- The characters that break a line: line feed, vertical tab, form feed, carriage return, next
line, and the separators of lines and paragraphs. -/
def lineBreaks : List Char :=
  ['\n', '\x0b', '\x0c', '\r', '\u0085', '\u2028', '\u2029']

/-- The characters are a string literal that denotes the text, by what stands between its quotes. -/
structure IsLiteral (s : String) (literal body : List Char) : Prop where
  form : literal = '"' :: body ++ ['"']
  oneLine : ∀ c ∈ body, c ∉ lineBreaks
  /-- A quote between the quotes is escaped. -/
  inside : ∀ front back, body = front ++ '"' :: back → escapesNext front = true
  /-- The quote at the end is not. -/
  closes : escapesNext body = false
  denotes : unescape body = some s.toList

/-- A backslash escapes the next character, unless it is escaped itself. -/
private theorem escapesNext_concat (front : List Char) (c : Char) :
    escapesNext (front ++ [c]) = (c == '\\' && !escapesNext front) := by
  have hodd : ∀ n : Nat, ((n + 1) % 2 == 1) = !(n % 2 == 1) := by
    intro n
    rcases Nat.mod_two_eq_zero_or_one n with hn | hn <;> simp [Nat.add_mod, hn]
  unfold escapesNext
  by_cases hc : c = '\\'
  · simp [hc, hodd]
  · simp [hc]

end Text

open Text

/-! ### Where a literal ends -/

/-- Characters that leave a string open leave it behind a backslash if they escape what follows. -/
theorem scanned_eq_of_open {front : List Char} (h : (scanned (.quoted []) front).1 = []) :
    (scanned (.quoted []) front).2 =
      if escapesNext front then .escape front else .quoted front := by
  induction front using List.reverseRecOn with
  | nil => rfl
  | append_singleton front c ih =>
      rw [scanned_append] at h ⊢
      obtain ⟨hfront, hlast⟩ := List.append_eq_nil_iff.mp h
      rw [ih hfront] at hlast ⊢
      rw [escapesNext_concat]
      cases hescapes : escapesNext front with
      | true => simp [scanned, Scan.step]
      | false =>
          have hquote : c ≠ '"' := by
            rintro rfl
            simp [hescapes, scanned, Scan.step] at hlast
          by_cases hback : c = '\\'
          · simp [scanned, Scan.step, hback]
          · simp [scanned, Scan.step, hquote, hback]

/-- A quote in characters that leave a string open is escaped. -/
theorem escapesNext_of_open {front back : List Char}
    (h : (scanned (.quoted []) (front ++ '"' :: back)).1 = []) : escapesNext front = true := by
  rw [scanned_append] at h
  obtain ⟨hfront, hback⟩ := List.append_eq_nil_iff.mp h
  rw [scanned_eq_of_open hfront] at hback
  cases hescapes : escapesNext front with
  | true => rfl
  | false => simp [hescapes, scanned, Scan.step] at hback

namespace Text

namespace IsLiteral

variable {s t : String} {literal other body more as bs : List Char}

/-- A literal does not go on behind the end of another one. -/
theorem body_eq (hs : IsLiteral s literal body) (ht : IsLiteral t other (body ++ more))
    (h : '"' :: as = more ++ '"' :: bs) : more = [] := by
  cases more with
  | nil => rfl
  | cons c more =>
      obtain ⟨rfl, -⟩ := List.cons.inj h
      have hescapes := ht.inside body more rfl
      rw [hs.closes] at hescapes
      cases hescapes

/-- **A literal says where it ends.**  If two texts that begin with literals are equal, the literals
denote the same, and what stands behind them is equal. -/
theorem append_inj (hs : IsLiteral s literal body) (ht : IsLiteral t other more)
    (h : literal ++ as = other ++ bs) : s = t ∧ as = bs := by
  have hbodies : body ++ '"' :: as = more ++ '"' :: bs := by
    rw [hs.form, ht.form] at h
    simpa using h
  have hsame : body = more := by
    rcases List.append_eq_append_iff.mp hbodies with ⟨rest, rfl, hrest⟩ | ⟨rest, rfl, hrest⟩
    · rw [hs.body_eq ht hrest, List.append_nil]
    · rw [ht.body_eq hs hrest, List.append_nil]
  subst hsame
  have htexts : some s.toList = some t.toList := hs.denotes.symm.trans ht.denotes
  refine ⟨String.toList_inj.mp (Option.some.inj htexts), ?_⟩
  simpa using hbodies

end IsLiteral

/-! ### Written literals -/

/-- What stands for a character in its short escape is no line break. -/
private theorem not_mem_lineBreaks_of_shortEscape? {c d : Char} (h : shortEscape? c = some d) :
    c ∉ lineBreaks := by
  have hnone : lineBreaks.all (fun c => shortEscape? c == none) = true := by decide
  intro hmem
  have hc : shortEscape? c = none := by simpa using List.all_eq_true.mp hnone c hmem
  rw [hc] at h
  cases h

/-- The escape of a numbered character holds no line break. -/
private theorem not_mem_lineBreaks_of_mem_escapeCode {c d : Char} (h : d ∈ escapeCode c) :
    d ∉ lineBreaks := by
  have hsigns : ['\\', 'u', '\x7b', '\x7d'].all (fun d => !lineBreaks.contains d) = true := by
    decide
  have hdigits : (List.range 16).all (fun k => !lineBreaks.contains k.digitChar) = true := by decide
  by_cases hdigit : d ∈ Nat.toDigits 16 c.toNat
  · obtain ⟨k, hk, rfl⟩ := mem_toDigits_sixteen hdigit
    simpa using List.all_eq_true.mp hdigits k (List.mem_range.mpr hk)
  · rw [escapeCode_eq] at h
    simpa using List.all_eq_true.mp hsigns d (by simpa [hdigit] using h)

set_option maxRecDepth 4000 in
/-- A line break has no printed form.  The separators stand far behind in the table. -/
theorem isHidden_of_mem_lineBreaks {c : Char} (h : c ∈ lineBreaks) : isHidden c = true := by
  have hall : lineBreaks.all isUnprintable = true := by decide
  rw [isHidden, List.all_eq_true.mp hall c h, Bool.or_true]

/-- A character that stands for itself in a literal shows by itself. -/
theorem isHidden_eq_false_of_escapeChar {c : Char} (h : escapeChar c = [c]) :
    isHidden c = false := by
  cases hhidden : isHidden c with
  | false => rfl
  | true =>
      have hlong : (escapeChar c).length ≠ 1 := by
        simp only [escapeChar, escapeCode, hhidden, if_true]
        split_ifs <;> simp
      rw [h] at hlong
      exact absurd rfl hlong

/-- The written form of a character breaks no line. -/
theorem not_mem_lineBreaks_of_mem_escapeChar {c d : Char} (h : d ∈ escapeChar c) :
    d ∉ lineBreaks := by
  rcases escapeChar_cases c with ⟨e, he, -, hform⟩ | hform | ⟨-, -, hform⟩
  · have hsign : '\\' ∉ lineBreaks := by decide
    have hparts : d = '\\' ∨ d = e := by simpa [hform] using h
    rcases hparts with rfl | rfl
    · exact hsign
    · exact not_mem_lineBreaks_of_shortEscape? he
  · exact not_mem_lineBreaks_of_mem_escapeCode (hform ▸ h)
  · rw [hform, List.mem_singleton] at h
    intro hbreak
    have hhidden := isHidden_of_mem_lineBreaks (h ▸ hbreak)
    rw [isHidden_eq_false_of_escapeChar hform] at hhidden
    cases hhidden

/-- **The literal that is written for a text denotes it.** -/
theorem isLiteral_quote (s : String) :
    IsLiteral s (quote s).toList (s.toList.flatMap escapeChar) := by
  have hopen := scanned_flatMap_escapeChar s.toList []
  rw [List.nil_append] at hopen
  have hstate := scanned_eq_of_open (congrArg Prod.fst hopen)
  refine ⟨String.toList_ofList, fun c hc => ?_, fun front back hform => ?_, ?_,
    unescape_flatMap_escapeChar s.toList⟩
  · obtain ⟨d, -, hd⟩ := List.mem_flatMap.mp hc
    exact not_mem_lineBreaks_of_mem_escapeChar hd
  · rw [hform] at hopen
    exact escapesNext_of_open (congrArg Prod.fst hopen)
  · rw [hopen] at hstate
    cases hescapes : escapesNext (s.toList.flatMap escapeChar) with
    | false => rfl
    | true => simp [hescapes] at hstate

end Text

end HdlSim
