import HdlSim.Proofs.RoundTrip

/-!
# Names and their identifiers

A name becomes an identifier in two steps.  First it becomes a word of letters, digits and
underscores (`HostName.wordOf`), which forgets what the other characters were.  Then the word
becomes an identifier (`HostName.ofWord`): a reserved word gets an underscore behind it, a keyword
becomes a raw identifier, and every other word stays what it is.

The first step leaves nothing but an underscore of a name without letters and digits that has one
character at most.  The host language does not take that for a name; every other name gets an
identifier that can be used (`escape_usable_iff`).  The second step brings only those words together
of which one is reserved and the other is the same word with an underscore behind it
(`HostName.ofWord_eq_iff`), so two names have the same identifier exactly if their words are the
same or such a pair (`escape_text_eq_iff`).
-/

namespace HdlSim

namespace HostName

/-! ### Words -/

/-- The word for a name: characters other than letters, digits and underscores are replaced by
underscores, and an underscore stands in front where the word would be empty or start with a
digit. -/
def wordOf (name : String) : String := String.ofList (wordChars name.toList)

/-- The characters of the word for a name. -/
@[simp] theorem toList_wordOf (name : String) :
    (wordOf name).toList = wordChars name.toList :=
  String.toList_ofList

/-- A name that is a word is its own word. -/
theorem wordOf_of_isWord {name : String} (h : IsWord name) : wordOf name = name := by
  obtain ⟨hne, hhead, hall⟩ := isName_iff.mp (isWord_iff.mp h)
  have hsame : name.toList.map (fun c => if isWordChar c then c else '_') = name.toList := by
    refine (List.map_congr_left fun c hc => ?_).trans (List.map_id' _)
    rw [if_pos (List.all_eq_true.mp hall c hc)]
  obtain ⟨c, cs, hform⟩ := List.exists_cons_of_ne_nil hne
  have hdigit : c.isDigit = false := hhead c (by rw [hform]; rfl)
  have hchars : wordChars name.toList = name.toList := by
    unfold wordChars
    rw [hsame, hform]
    simp [hdigit]
  rw [wordOf, hchars, String.ofList_toList]

/-! ### Identifiers of words -/

/-- The identifier for a word. -/
def ofWord (word : String) : HostName :=
  if word ∈ reserved then ⟨false, word ++ "_"⟩
  else if word ∈ keywords then ⟨true, word⟩
  else ⟨false, word⟩

/-- The two steps by which a name becomes an identifier. -/
theorem escape_eq (name : String) : escape name = ofWord (wordOf name) := rfl

/-- A reserved word with an underscore behind it is neither reserved nor a keyword. -/
theorem behind_reserved : ∀ w ∈ reserved, w ++ "_" ∉ reserved ++ keywords := by decide

/-- No keyword is reserved. -/
theorem keyword_not_reserved : ∀ w ∈ keywords, w ∉ reserved := by decide

/-- A reserved word gets an underscore behind it. -/
private theorem ofWord_of_reserved {word : String} (h : word ∈ reserved) :
    ofWord word = ⟨false, word ++ "_"⟩ := if_pos h

private theorem ofWord_of_keyword {word : String} (h : word ∈ keywords) :
    ofWord word = ⟨true, word⟩ := by
  rw [ofWord, if_neg (keyword_not_reserved word h), if_pos h]

/-- Every other word is kept. -/
theorem ofWord_of_other {word : String} (h : word ∉ reserved ++ keywords) :
    ofWord word = ⟨false, word⟩ := by
  obtain ⟨hreserved, hkeyword⟩ := not_or.mp (mt List.mem_append.mpr h)
  rw [ofWord, if_neg hreserved, if_neg hkeyword]

/-- The word of the identifier for a word. -/
theorem ofWord_word (word : String) :
    (ofWord word).word = if word ∈ reserved then word ++ "_" else word := by
  unfold ofWord
  split
  · rfl
  · split <;> rfl

/-- Whether the identifier for a word is raw. -/
theorem ofWord_raw (word : String) : (ofWord word).raw = decide (word ∈ keywords) := by
  by_cases hkeyword : word ∈ keywords
  · rw [ofWord_of_keyword hkeyword]
    exact (decide_eq_true hkeyword).symm
  · rw [ofWord, if_neg hkeyword, decide_eq_false hkeyword]
    split <;> rfl

/-- **Two words have the same identifier** only if they are the same, or if one of them is reserved
and the other is what it becomes. -/
theorem ofWord_eq_iff {v w : String} : ofWord v = ofWord w ↔
    v = w ∨ (v ∈ reserved ∧ w = v ++ "_") ∨ (w ∈ reserved ∧ v = w ++ "_") := by
  have hbecomes : ∀ {u : String}, u ∈ reserved → ofWord (u ++ "_") = ofWord u := by
    intro u hu
    rw [ofWord_of_reserved hu, ofWord_of_other (behind_reserved u hu)]
  constructor
  · intro h
    have hword := congrArg HostName.word h
    rw [ofWord_word, ofWord_word] at hword
    by_cases hv : v ∈ reserved
    · rw [if_pos hv] at hword
      by_cases hw : w ∈ reserved
      · rw [if_pos hw] at hword
        exact .inl (String.append_left_inj _ |>.mp hword)
      · rw [if_neg hw] at hword
        exact .inr (.inl ⟨hv, hword.symm⟩)
    · rw [if_neg hv] at hword
      by_cases hw : w ∈ reserved
      · rw [if_pos hw] at hword
        exact .inr (.inr ⟨hw, hword⟩)
      · rw [if_neg hw] at hword
        exact .inl hword
  · rintro (rfl | ⟨hv, rfl⟩ | ⟨hw, rfl⟩)
    · rfl
    · exact (hbecomes hv).symm
    · exact hbecomes hw

/-- Two names have the same word, or words that become the same. -/
def Alike (name name' : String) : Prop :=
  wordOf name = wordOf name' ∨
    (wordOf name ∈ reserved ∧ wordOf name' = wordOf name ++ "_") ∨
    (wordOf name' ∈ reserved ∧ wordOf name = wordOf name' ++ "_")

instance (name name' : String) : Decidable (Alike name name') := by
  unfold Alike; infer_instance

/-- Names are alike if and only if they have the same identifier. -/
theorem alike_iff {name name' : String} : Alike name name' ↔ escape name = escape name' :=
  ofWord_eq_iff.symm

/-- The word of a host identifier is none of those that every model has. -/
theorem escape_word_not_mem (name : String) : (escape name).word ∉ reserved := by
  rw [escape_eq, ofWord_word]
  split
  · next hreserved =>
      exact fun hmem => behind_reserved _ hreserved (List.mem_append_left _ hmem)
  · assumption

/-- Whether a host identifier is raw can be told from its word. -/
theorem escape_raw (name : String) :
    (escape name).raw = decide ((escape name).word ∈ keywords) := by
  rw [escape_eq, ofWord_raw, ofWord_word]
  split
  · next hreserved =>
      have hword : wordOf name ∉ keywords := fun h => keyword_not_reserved _ h hreserved
      have hbehind : wordOf name ++ "_" ∉ keywords :=
        fun h => behind_reserved _ hreserved (List.mem_append_right _ h)
      rw [decide_eq_false hword, decide_eq_false hbehind]
  · rfl

/-- Different host identifiers have different words. -/
theorem escape_word_inj {name name' : String} (h : (escape name).word = (escape name').word) :
    escape name = escape name' := by
  have hraw : (escape name).raw = (escape name').raw := by
    rw [escape_raw, escape_raw, h]
  cases hleft : escape name
  cases hright : escape name'
  simp_all

/-- Names are alike if and only if their identifiers have the same word. -/
theorem alike_iff_word {name name' : String} :
    Alike name name' ↔ (escape name).word = (escape name').word :=
  alike_iff.trans ⟨congrArg word, escape_word_inj⟩

/-- Different host identifiers have different texts. -/
theorem escape_text_inj {name name' : String} (h : (escape name).text = (escape name').text) :
    escape name = escape name' := by
  have hread : Atom.ofWord? (escape name).text = some (.name (escape name)) := escape_isProper name
  have hread' : Atom.ofWord? (escape name').text = some (.name (escape name')) :=
    escape_isProper name'
  rw [h, hread'] at hread
  simpa using hread.symm

/-- Only keywords become raw identifiers. -/
theorem keyword_of_text_raw {name word : String} (h : (escape name).text = "r#" ++ word) :
    wordOf name ∈ keywords := by
  by_cases hkeyword : wordOf name ∈ keywords
  · exact hkeyword
  have hraw : (escape name).raw = false := (ofWord_raw _).trans (decide_eq_false hkeyword)
  have htext : (escape name).text = (escape name).word := by simp [text, hraw]
  obtain ⟨-, -, hall⟩ := isName_iff.mp (isName_escape_word name)
  rw [← htext, h] at hall
  have hsign : isWordChar '#' = true := List.all_eq_true.mp hall '#' (by simp)
  exact absurd hsign (by decide)

/-! ### Usable identifiers -/

/-- The members of every model, and the parameters of its constructor. -/
def modelWords : List String :=
  ["model", "io", "sim", "inst_name", "new", "init_body", "run_process"]

/-- **A text that can be declared in a model** as a field, a variable or a function: an identifier
of the host language that the model does not use for itself. -/
def Usable (text : String) : Prop :=
  ∃ n : HostName, n.text = text ∧ n.IsIdentifier ∧ n.word ∉ modelWords

/-- The name is empty, or one character that is neither a letter nor a digit. -/
def Featureless (name : String) : Prop :=
  name.toList.length ≤ 1 ∧ ∀ c ∈ name.toList, c.isAlphanum = false

/-- The underscore cannot be declared. -/
theorem not_usable_underscore : ¬ Usable "_" := by
  rintro ⟨⟨raw, word⟩, htext, hname, -⟩
  cases raw with
  | false => exact hname.2.1 (by rw [show word = "_" from htext]; decide)
  | true =>
      have hlength := congrArg (fun s => s.toList.length) htext
      simp [text] at hlength

/-- A character becomes an underscore if it is neither a letter nor a digit. -/
private theorem wordChars_singleton_iff {c : Char} :
    wordChars [c] = ['_'] ↔ c.isAlphanum = false := by
  unfold wordChars
  by_cases hletter : c.isAlphanum = true
  · have hword : isWordChar c = true := isWordChar_iff.mpr (.inl hletter)
    have hunder : c ≠ '_' := by
      rintro rfl
      exact absurd hletter (by decide)
    simp only [List.map_cons, List.map_nil, hword, if_true, hletter]
    split <;> simp [hunder]
  · have hreplaced : (if isWordChar c then c else '_') = '_' := by
      split
      · next hword => exact (isWordChar_iff.mp hword).resolve_left hletter
      · rfl
    have hdigit : '_'.isDigit = false := by decide
    simp [hreplaced, hdigit, hletter]

/-- The names of which nothing but an underscore is left. -/
theorem wordOf_eq_underscore_iff {name : String} :
    wordOf name = "_" ↔ Featureless name := by
  have hchars : wordOf name = "_" ↔ wordChars name.toList = ['_'] := by
    rw [← String.toList_inj, toList_wordOf]
    rfl
  rw [hchars, Featureless]
  match name.toList with
  | [] => simp [wordChars]
  | [c] => simp [wordChars_singleton_iff]
  | c :: d :: cs =>
      simp only [wordChars, List.map_cons]
      generalize (if isWordChar c then c else '_') = first
      split <;> simp

/-- The identifier of a name can be declared, unless it is the underscore. -/
theorem usable_escape {name : String} (h : wordOf name ≠ "_") : Usable (escape name).text := by
  have hmodel : ∀ w ∈ modelWords, w ∈ reserved := by decide
  exact ⟨escape name, rfl, escape_isIdentifier h,
    fun hmem => escape_word_not_mem name (hmodel _ hmem)⟩

end HostName

open HostName

/-- **Identifiers can be used.**  The identifier for a name can be declared in a model, unless the
name is featureless; the identifier for a featureless name is an underscore. -/
theorem escape_usable_iff (name : String) :
    (Usable (escape name).text ↔ ¬ Featureless name) ∧
      (Featureless name → (escape name).text = "_") := by
  have hunder : Featureless name → (escape name).text = "_" := by
    intro h
    rw [escape_eq, wordOf_eq_underscore_iff.mpr h]
    decide
  refine ⟨⟨fun husable hfeatureless => ?_, fun h => ?_⟩, hunder⟩
  · rw [hunder hfeatureless] at husable
    exact not_usable_underscore husable
  · exact usable_escape (mt wordOf_eq_underscore_iff.mp h)

/-- The identifiers for the name of a member, and for an empty name. -/
theorem escape_usable_iff_ends : Usable (escape "new").text ∧ (escape "").text = "_" := by
  have hlong : ¬ Featureless "new" := fun h => absurd h.1 (by decide)
  have hempty : Featureless "" := ⟨by decide, by simp⟩
  exact ⟨(escape_usable_iff "new").1.mpr hlong, (escape_usable_iff "").2 hempty⟩

/-- The name of a port that is written as one sign. -/
theorem escape_dollar_not_usable :
    (escape "$").text = "_" ∧ ¬ Usable (escape "$").text := by
  have htext : (escape "$").text = "_" := by decide
  refine ⟨htext, ?_⟩
  rw [htext]
  exact not_usable_underscore

/-- **When identifiers collide.**  Two names have the same identifier if and only if they have the
same word, or the word of one is reserved and the other has that word with an underscore behind it.
Raw identifiers add no collision, and words that are neither keywords nor reserved are kept. -/
theorem escape_text_eq_iff (name name' : String) :
    ((escape name).text = (escape name').text ↔
      wordOf name = wordOf name' ∨
        (wordOf name ∈ reserved ∧ wordOf name' = wordOf name ++ "_") ∨
        (wordOf name' ∈ reserved ∧ wordOf name = wordOf name' ++ "_")) ∧
      (∀ word, (escape name).text = "r#" ++ word →
        ((escape name).text = (escape name').text ↔ wordOf name = wordOf name')) ∧
      (IsWord name → name ∉ languageKeywords → name ∉ reserved → (escape name).text = name) := by
  have hiff : (escape name).text = (escape name').text ↔ Alike name name' := by
    rw [alike_iff]
    exact ⟨escape_text_inj, congrArg text⟩
  refine ⟨hiff, fun word hraw => ?_, fun hword hkeyword hreserved => ?_⟩
  · have hname := keyword_of_text_raw hraw
    rw [hiff]
    constructor
    · rintro (hsame | ⟨hreserved, -⟩ | ⟨hreserved, hbehind⟩)
      · exact hsame
      · exact absurd hreserved (keyword_not_reserved _ hname)
      · rw [hbehind] at hname
        exact absurd (List.mem_append_right _ hname) (behind_reserved _ hreserved)
    · exact .inl
  · have hkeywords : ∀ w ∈ keywords, w ∈ languageKeywords := by decide
    have hother : name ∉ reserved ++ keywords := by
      intro hmem
      rcases List.mem_append.mp hmem with hmem | hmem
      · exact hreserved hmem
      · exact hkeyword (hkeywords name hmem)
    rw [escape_eq, wordOf_of_isWord hword, ofWord_of_other hother]
    rfl

/-- A keyword does not collide with itself and an underscore, a reserved word does, and `data` is
kept. -/
theorem escape_text_eq_iff_words :
    (escape "type").text = "r#" ++ "type" ∧ (escape "type").text ≠ (escape "type_").text ∧
      (escape "io").text = (escape "io_").text ∧ (escape "data").text = "data" := by
  have hraw : (escape "type").text = "r#" ++ "type" := by decide
  have hapart : wordOf "type" ≠ wordOf "type_" := by decide
  have hbehind : wordOf "io" ∈ reserved ∧ wordOf "io_" = wordOf "io" ++ "_" := by decide
  have hword : IsWord "data" := isWord_iff.mpr (by decide)
  refine ⟨hraw, fun h => hapart ?_, ?_, ?_⟩
  · exact ((escape_text_eq_iff "type" "type_").2.1 _ hraw).mp h
  · exact (escape_text_eq_iff "io" "io_").1.mpr (.inr (.inl hbehind))
  · exact (escape_text_eq_iff "data" "data").2.2 hword (by decide) (by decide)

end HdlSim
