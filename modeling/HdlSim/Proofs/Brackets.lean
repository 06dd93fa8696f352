import HdlSim.Proofs.Layout
import HdlSim.Proofs.ModelTokens

/-!
# Lines that begin and end blocks

A line of code ends a block if a closing brace is the first character behind its indentation, and
begins one if an opening brace is its last.  Every line of a model has the braces at its ends that
its command calls for, and none other (`Model.Writes.shaped`), however the names and values in it
are written.
-/

namespace HdlSim

open Script

namespace Text

/-- Whether a line is a comment. -/
def isComment (line : List Char) : Bool := "//".toList.isPrefixOf (line.dropWhile (· == ' '))

/-- Whether a line of code ends a block. -/
def closes (line : List Char) : Bool :=
  !isComment line && (line.dropWhile (· == ' ')).head? == some '\x7d'

/-- Whether a line of code begins a block. -/
def opens (line : List Char) : Bool := !isComment line && line.getLast? == some '\x7b'

/-- A line with no white space in front, and with or without braces at its ends. -/
structure Bracketed (closing opening : Bool) (text : String) : Prop where
  flush : isFlush text = true
  closes : closes text.toList = closing
  opens : opens text.toList = opening

/-- A first character of a line of code, where it tells whether the line ends a block. -/
def leads (closing : Bool) (c : Char) : Bool :=
  !isBlank c && c != '/' && (c == '\x7d') == closing

/-- A last character of a line of code, where it tells whether the line begins a block. -/
def trails (opening : Bool) (c : Char) : Bool := (c == '\x7b') == opening

/-- A text that is flush begins with a character that is not blank. -/
theorem exists_cons_of_flush {text : String} (h : isFlush text = true) :
    ∃ c cs, text.toList = c :: cs ∧ isBlank c = false := by
  cases hform : text.toList with
  | nil => simp [isFlush, hform] at h
  | cons c cs => exact ⟨c, cs, rfl, by simpa [isFlush, hform] using h⟩

/-- A text that is flush is not empty. -/
theorem isEmpty_of_flush {text : String} (h : isFlush text = true) : text.isEmpty = false := by
  obtain ⟨c, cs, hform, -⟩ := exists_cons_of_flush h
  rw [Bool.eq_false_iff]
  intro hempty
  rw [String.isEmpty_iff.mp hempty] at hform
  simp at hform

private theorem ne_space_of_isBlank {c : Char} (h : isBlank c = false) : (c == ' ') = false := by
  have hspace : c ≠ ' ' := by
    rintro rfl
    exact absurd h (by decide)
  simpa using hspace

/-- The first and the last character tell whether a line begins or ends a block. -/
theorem bracketed_of_ends {text : String} {closing opening : Bool} (front back : String)
    (hfront : front.toList <+: text.toList) (hback : back.toList <:+ text.toList)
    (h : (front.toList.head?.any (leads closing) && back.toList.getLast?.any (trails opening)) =
      true) : Bracketed closing opening text := by
  obtain ⟨hhead, hlast⟩ := Bool.and_eq_true_iff.mp h
  obtain ⟨c, hc, hleads⟩ := (Option.any_eq_true _ _).mp hhead
  obtain ⟨d, hd, htrails⟩ := (Option.any_eq_true _ _).mp hlast
  obtain ⟨⟨hblank, hslash⟩, hclosing⟩ :
      (isBlank c = false ∧ c ≠ '/') ∧ (c == '\x7d') = closing := by
    simpa [leads] using hleads
  have hopening : (d == '\x7b') = opening := by simpa [trails] using htrails
  have hfirst : text.toList.head? = some c := by
    obtain ⟨rest, hrest⟩ := hfront
    rw [← hrest, List.head?_append, hc, Option.some_or]
  have hfinal : text.toList.getLast? = some d := by
    obtain ⟨start, hstart⟩ := hback
    rw [← hstart, List.getLast?_append, hd, Option.some_or]
  have hkept : text.toList.dropWhile (· == ' ') = text.toList := by
    obtain ⟨cs, hcs⟩ := List.head?_eq_some_iff.mp hfirst
    rw [hcs, List.dropWhile_cons_of_neg (by simp [ne_space_of_isBlank hblank])]
  have hcode : isComment text.toList = false := by
    obtain ⟨cs, hcs⟩ := List.head?_eq_some_iff.mp hfirst
    rw [isComment, hkept, hcs, Bool.eq_false_iff]
    intro hprefix
    have hslashes : '/' :: ['/'] <+: c :: cs := List.isPrefixOf_iff_prefix.mp hprefix
    exact hslash (List.cons_prefix_cons.mp hslashes).1.symm
  refine ⟨?_, ?_, ?_⟩
  · rw [isFlush, hfirst]
    simpa using hblank
  · rw [Text.closes, hcode, hkept, hfirst, ← hclosing]
    rfl
  · rw [Text.opens, hcode, hfinal, ← hopening]
    rfl

/-- A name at the beginning of a line neither makes it a comment nor ends a block. -/
theorem leads_of_isNameChar {c : Char} (h : isNameChar c = true) : leads false c = true := by
  have hslash : c ≠ '/' := by
    rintro rfl
    exact absurd h (by decide)
  have hbrace : c ≠ '\x7d' := by
    rintro rfl
    exact absurd h (by decide)
  simp [leads, isBlank_of_isNameChar h, hslash, hbrace]

/-- A line that begins with a word and ends as said. -/
theorem bracketed_of_word {text word : String} {opening : Bool} (back : String)
    (hword : word.toList ≠ [] ∧ word.toList.all isNameChar = true)
    (hfront : word.toList <+: text.toList) (hback : back.toList <:+ text.toList)
    (h : back.toList.getLast?.any (trails opening) = true) : Bracketed false opening text := by
  obtain ⟨c, cs, hform⟩ := List.exists_cons_of_ne_nil hword.1
  have hc : isNameChar c = true := List.all_eq_true.mp hword.2 c (by simp [hform])
  refine bracketed_of_ends word back hfront hback ?_
  rw [hform, h]
  simpa using leads_of_isNameChar hc

end Text

open Text

/-! ### How lines end -/

/-- What stands in a line behind the last of its parts. -/
def Line.back : Line → String
  | .comment _ _ | .verbatim _ | .result _ => ""
  | .useModule _ _ | .letConst _ _ | .letSelector _ => ";"
  | .structDecl _ | .implBlock _ | .ioValue _ | .simUnitImpl _ | .elseIfMatches _ => " \x7b"
  | .fieldDecl _ _ | .fieldInit _ => ","
  | .typeFn _ => "() -> HdlType \x7b"
  | .letProxy _ _ _ _ | .letUnit _ _ _ | .connect _ _ _ | .write _ _ | .writeAt _ _ _
  | .writeSlice _ _ _ _ => ");"
  | .emptyIoValue _ => " \x7b\x7d,"
  | .setInterfaces _ | .setProcesses _ | .setUnits _ | .setSensitivity _ _ | .setOutputs _ _ =>
    "]);"
  | .initUnit _ => ".init_body();"
  | .dispatch _ _ => "(),"
  | .noProcess _ => " has no process \x7bindex\x7d\"),"
  | .processFn _ => "(&mut self) \x7b"
  | .writeInvalid _ => ".write_invalid();"
  | .matchCond _ => ") \x7b"
  | l => l.text

/-- A line ends as its form says. -/
theorem Line.back_isSuffix (l : Line) : l.back.toList <:+ l.text.toList := by
  cases l with
  | close | closeField | newFn | letModel | selfValue | modelFn | modelRef | initBodyFn
  | runProcessFn | matchIndex | condTrue | condFalse | condFalseEmpty | condInvalid
  | condInvalidEmpty | bareBlock | ifSelectorInvalid | elseBlock => exact List.suffix_rfl
  | comment | verbatim | result => exact List.nil_suffix
  | _ =>
      unfold Line.text Line.back
      simp only [String.toList_append, List.suffix_append]

/-- A line whose form tells whether it begins or ends a block. -/
theorem Line.bracketed_of_form {l : Line} {closing opening : Bool} {front back : List Char}
    (hfront : l.front = String.ofList front) (hback : l.back = String.ofList back)
    (h : (front.head?.any (leads closing) && back.getLast?.any (trails opening)) = true) :
    Bracketed closing opening l.text := by
  refine bracketed_of_ends l.front l.back l.front_isPrefix l.back_isSuffix ?_
  rwa [hfront, hback, String.toList_ofList, String.toList_ofList]

/-- A comment can be told from its beginning. -/
theorem isComment_comment (mark : CommentMark) (text : String) :
    isComment (Line.comment mark text).text.toList = true := by
  obtain ⟨rest, hrest⟩ := (Line.comment mark text).front_isPrefix
  have hform : (Line.comment mark text).text.toList = "//".toList ++ rest := hrest.symm
  rw [hform]
  rfl

/-- Comments begin and end no blocks, whatever they say. -/
theorem bracketed_comment (mark : CommentMark) (text : String) :
    Bracketed false false (Line.comment mark text).text := by
  obtain ⟨rest, hrest⟩ := (Line.comment mark text).front_isPrefix
  have hform : (Line.comment mark text).text.toList = "//".toList ++ rest := hrest.symm
  refine ⟨?_, ?_, ?_⟩
  · rw [isFlush, hform]
    rfl
  · rw [Text.closes, isComment_comment]
    rfl
  · rw [Text.opens, isComment_comment]
    rfl

/-! ### Lines that begin with names and values -/

/-- The value of a field. -/
theorem bracketed_fieldInit {name : HostName} (h : name.IsProper) :
    Bracketed false false (Line.fieldInit name).text := by
  refine bracketed_of_word "," (Atom.name_text h) ?_ (Line.fieldInit name).back_isSuffix (by decide)
  unfold Line.text
  simp only [String.toList_append, List.prefix_append]

/-- The call of a process by its number. -/
private theorem bracketed_dispatch (index : Nat) (name : HostName) :
    Bracketed false false (Line.dispatch index name).text := by
  have hdigits : (natText index).toList.all isNameChar = true := by
    refine List.all_eq_true.mpr fun c hc => ?_
    have hdigit := isDigit_of_mem_natText hc
    simp [isNameChar, HostName.isWordChar, Char.isAlphanum, hdigit]
  refine bracketed_of_word "()," ⟨natText_ne_nil index, hdigits⟩ ?_
    (Line.dispatch index name).back_isSuffix (by decide)
  unfold Line.text
  simp only [String.toList_append, List.append_assoc, List.prefix_append]

/-- A call of a function of the runtime. -/
theorem bracketed_call {f : HostName} (hf : f.IsProper) (args : List HostExpr) :
    Bracketed false false (Line.result (.call f args)).text := by
  change Bracketed false false (HostExpr.call f args).text
  unfold HostExpr.text
  refine bracketed_of_word ")" (Atom.name_text hf) ?_ ?_ (by decide)
  · simp only [String.toList_append, List.append_assoc, List.prefix_append]
  · simp only [String.toList_append, List.suffix_append]

/-- A call of a function of the model. -/
private theorem bracketed_selfCall (f : HostName) :
    Bracketed false false (Line.result (.selfCall f)).text := by
  change Bracketed false false (HostExpr.selfCall f).text
  unfold HostExpr.text
  refine bracketed_of_ends "Self::" "()" ?_ ?_ (by decide)
  · simp only [String.toList_append, List.append_assoc, List.prefix_append]
  · simp only [String.toList_append, List.suffix_append]

/-- The value of a type that is declared. -/
private theorem Site.bracketed_typeItemValue {s : Site} {t : TypeItem} {v : HostExpr}
    (h : s.typeItemValue t = .ok v) : Bracketed false false (Line.result v).text := by
  rcases typeItemValue_mirrors h with ⟨name, labels, -, -, rfl⟩ | ⟨-, type, hmirror⟩
  · exact bracketed_call (by decide) _
  · cases hmirror with
    | bits width signed => exact bracketed_call (by decide) _
    | array _ _ => exact bracketed_call (by decide) _
    | own _ _ => exact bracketed_selfCall _
    | foreign _ _ => exact bracketed_call (HostName.escape_isProper _) _

/-- In a process a line that begins with the proxy of a signal is code. -/
theorem Site.bracketed_proxyOf {s : Site} (hplace : s.place = .process) {n : Ident} {p : HostExpr}
    (hp : s.proxyOf n = .ok p) {l : Line} (hfront : p.text.toList <+: l.text.toList)
    (hback : l.back.toList.getLast?.any (trails false) = true) : Bracketed false false l.text := by
  refine bracketed_of_ends "self.io." l.back ((isPrefix_proxyOf hplace hp).trans hfront)
    l.back_isSuffix ?_
  rw [hback]
  decide

/-! ### The lines of a model -/

/-- Whether a command ends a block. -/
def Command.closing {τ : Type} : Command τ → Bool
  | .leave _ | .turn _ => true
  | .line _ | .blank | .enter _ => false

/-- Whether a command begins a block. -/
def Command.opening {τ : Type} : Command τ → Bool
  | .enter _ | .turn _ => true
  | .line _ | .blank | .leave _ => false

/-- **The line of a command.**  Unless it is empty, its ends show which blocks begin and end. -/
structure Command.Shaped (c : Command Line) : Prop where
  oneLine : OneLine c.written.text
  bracketed : c ≠ .blank → Bracketed c.closing c.opening c.written.text

/-- The lines of statements are shaped as their commands say. -/
theorem Site.Writes.shaped {s : Site} (hplace : s.place = .process) {c : Command Line}
    (h : s.Writes c) : c.Shaped := by
  refine ⟨Line.oneLine_of_parts h.oneLine_parts, fun hblank => ?_⟩
  cases h with
  | write hp | writeAt hp | writeSlice hp | writeInvalid hp =>
      exact bracketed_proxyOf hplace hp (Line.proxy_isPrefix rfl)
        (by simp +decide only [Command.written, Line.back])
  | _ => exact Line.bracketed_of_form rfl rfl rfl

namespace Model

variable {m : Model} {c : Command Line}

/-- **The lines of a model** show at their ends which blocks begin and end. -/
theorem Writes.shaped (h : m.Writes c) : c.Shaped := by
  refine ⟨Line.oneLine_of_parts h.oneLine_parts, fun hblank => ?_⟩
  cases h with
  | blank => exact absurd rfl hblank
  | comment => exact bracketed_comment _ _
  | result hv => exact Site.bracketed_typeItemValue hv
  | modelInit => exact bracketed_fieldInit (by decide)
  | fieldInit hhost => exact bracketed_fieldInit (Context.isProper_host hhost)
  | dispatch => exact bracketed_dispatch _ _
  | statement hc => exact (hc.shaped rfl).bracketed hblank
  | _ => exact Line.bracketed_of_form rfl rfl rfl

end Model

end HdlSim
