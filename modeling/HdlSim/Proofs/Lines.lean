import HdlSim.Proofs.Rendering
import HdlSim.Proofs.RoundTrip

/-!
# The lines of a text

A text is looked at line by line, without the white space around each line (`codeLines`).  No line
of a model has a line feed inside, so the lines of the text are those that were written, in order
(`codeLines_rendered`), and how a line begins tells what it is for (`Line.front_isPrefix`).
-/

namespace HdlSim

namespace Text

/-- The characters between the first and the last one that is not white space. -/
def trim (cs : List Char) : List Char := trimEnd (cs.dropWhile isBlank)

/-- The text is a single line. -/
def OneLine (text : String) : Prop := '\n' ∉ text.toList

instance (text : String) : Decidable (OneLine text) := by
  unfold OneLine; infer_instance

/-- Two texts in a row are one line if both are. -/
@[simp] private theorem oneLine_append {a b : String} :
    OneLine (a ++ b) ↔ OneLine a ∧ OneLine b := by
  simp [OneLine]

/-- A text of which the characters are given.  They are compared faster than read off the text. -/
theorem oneLine_of_chars {text : String} {cs : List Char} (htext : text = String.ofList cs)
    (h : cs.contains '\n' = false) : OneLine text := by
  rw [htext, OneLine, String.toList_ofList]
  simpa using h

private theorem oneLine_of_forall {text : String} (h : ∀ c ∈ text.toList, isNameChar c = true) :
    OneLine text := by
  intro hmem
  exact absurd (h _ hmem) (by decide)

private theorem newline_not_mem_escapeChar (c : Char) : '\n' ∉ escapeChar c := by
  rcases escapeChar_cases c with ⟨e, he, -, hform⟩ | hform | ⟨-, -, hform⟩
  · rw [hform]
    intro hmem
    have hnewline : e = '\n' := by simpa [eq_comm] using hmem
    rw [hnewline] at he
    simp [shortEscape?] at he
  · rw [hform, escapeCode]
    intro hmem
    have hdigit : '\n' ∈ Nat.toDigits 16 c.toNat := by simpa using hmem
    obtain ⟨d, hd, hchar⟩ := mem_toDigits_sixteen hdigit
    have hall : ∀ d : Fin 16, '\n' ≠ d.val.digitChar := by decide
    exact hall ⟨d, hd⟩ hchar
  · by_cases hc : c = '\n'
    · subst hc
      decide
    · rw [hform]
      simpa [eq_comm] using hc

/-- A quoted string is one line. -/
@[simp] theorem oneLine_quote (s : String) : OneLine (quote s) := by
  intro hmem
  obtain ⟨c, -, hc⟩ : ∃ c ∈ s.toList, '\n' ∈ escapeChar c := by
    simpa [quote] using hmem
  exact newline_not_mem_escapeChar c hc

/-- A number is one line. -/
@[simp] theorem oneLine_natText (n : Nat) : OneLine (natText n) := by
  intro hmem
  exact absurd (isDigit_of_mem_natText hmem) (by decide)

@[simp] private theorem oneLine_intText (v : Int) : OneLine (intText v) := by
  cases v with
  | ofNat n => exact oneLine_natText n
  | negSucc n => exact oneLine_append.mpr ⟨by decide, oneLine_natText (n + 1)⟩

@[simp] private theorem oneLine_boolText (b : Bool) : OneLine (boolText b) := by
  cases b <;> decide

/-- Texts that are joined in a line are one line. -/
theorem oneLine_joinWith {separator : String} (hseparator : OneLine separator)
    {texts : List String} (h : ∀ text ∈ texts, OneLine text) :
    OneLine (joinWith separator texts) := by
  induction texts with
  | nil => simp [joinWith, OneLine]
  | cons text rest ih =>
      obtain ⟨htext, hrest⟩ := List.forall_mem_cons.mp h
      cases rest with
      | nil => exact htext
      | cons next rest =>
          simp [joinWith, htext, hseparator, ih hrest]

/-- A comma separated list is one line. -/
theorem oneLine_commaList {texts : List String} (h : ∀ text ∈ texts, OneLine text) :
    OneLine (commaList texts) :=
  oneLine_joinWith (by decide) h

/-- A line behind which the text goes on. -/
theorem lines_append {line : List Char} (h : '\n' ∉ line) (rest : List Char) :
    lines (line ++ '\n' :: rest) = line :: lines rest := by
  induction line with
  | nil => simp [lines]
  | cons c line ih =>
      obtain ⟨hc, hline⟩ : c ≠ '\n' ∧ '\n' ∉ line := by simpa [eq_comm] using h
      simp [lines, hc, ih hline]

/-- No line of a text has a line feed. -/
theorem newline_not_mem_lines {cs : List Char} : ∀ line ∈ lines cs, '\n' ∉ line := by
  induction cs with
  | nil => simp [lines]
  | cons c rest ih =>
      unfold lines
      split
      · exact List.forall_mem_cons.mpr ⟨by simp, ih⟩
      · rename_i hc
        split
        · simpa [eq_comm] using hc
        · rename_i line more hlines
          rw [hlines] at ih
          obtain ⟨hline, hmore⟩ := List.forall_mem_cons.mp ih
          refine List.forall_mem_cons.mpr ⟨?_, hmore⟩
          simpa [eq_comm, hline] using hc

/-- The lines of a comment are one line each. -/
theorem oneLine_docTexts (doc : String) : ∀ text ∈ docTexts doc, OneLine text := by
  refine List.forall_mem_map.mpr fun line hline hmem => ?_
  have hkept : '\n' ∈ line.reverse.dropWhile isBlank := by simpa [trimEnd] using hmem
  have hline' : '\n' ∈ line := by simpa using (List.dropWhile_suffix _).mem hkept
  exact newline_not_mem_lines line hline hline'

private theorem trim_indent (k : Nat) (cs : List Char) :
    trim (List.replicate k ' ' ++ cs) = trim cs := by
  have hspace : ∀ c ∈ List.replicate k ' ', isBlank c = true := by
    intro c hc
    rw [List.eq_of_mem_replicate hc]
    decide
  unfold trim
  rw [List.dropWhile_append_of_pos hspace]

/-- What is left of a line stands at its beginning, if there is no white space in front. -/
theorem trim_isPrefix {c : Char} {cs : List Char} (hc : isBlank c = false) :
    trim (c :: cs) <+: c :: cs := by
  unfold trim trimEnd
  rw [List.dropWhile_cons_of_neg (by simp [hc])]
  conv => rhs; rw [← List.reverse_reverse (c :: cs)]
  exact List.reverse_prefix.mpr (List.dropWhile_suffix _)

/-- Nothing is left out where neither end is white space. -/
theorem trim_eq_self {cs : List Char} (hfront : ∀ c ∈ cs.head?, isBlank c = false)
    (hback : ∀ c ∈ cs.getLast?, isBlank c = false) : trim cs = cs := by
  have hkept : ∀ {ds : List Char}, (∀ c ∈ ds.head?, isBlank c = false) →
      ds.dropWhile isBlank = ds := by
    intro ds hds
    cases ds with
    | nil => rfl
    | cons d ds => exact List.dropWhile_cons_of_neg (by simp [hds d rfl])
  unfold trim trimEnd
  rw [hkept hfront, hkept (by simpa using hback), List.reverse_reverse]

/-- Whether a line begins with a word. -/
def begins (word line : String) : Bool := word.toList.isPrefixOf line.toList

/-- A line begins with a word if the word is in front. -/
theorem begins_iff {word line : String} : begins word line = true ↔ word.toList <+: line.toList :=
  List.isPrefixOf_iff_prefix

end Text

open Text

/-- The lines of a text without the white space around each. -/
def codeLines (text : String) : List String :=
  (Text.lines text.toList).map fun line => String.ofList (trim line)

/-- A line as it stands in the text, without its indentation. -/
def Line.code (l : Line) : String := String.ofList (trim l.text.toList)

/-- The line that a command writes. -/
def Command.written : Command Line → Line
  | .line l => l
  | .blank => .verbatim ""
  | .enter l => l
  | .leave l => l
  | .turn l => l

/-- The line that a step writes, if it writes one. -/
def Step.written? : Step → Option Line
  | .write command => some command.written
  | .log _ => none
  | .mark _ => none

/-- The lines that steps write, in order. -/
def writtenLines (steps : List Step) : List Line := steps.filterMap Step.written?

@[simp] theorem writtenLines_nil : writtenLines [] = [] := rfl

/-- The lines of two runs in a row. -/
@[simp] theorem writtenLines_append (front back : List Step) :
    writtenLines (front ++ back) = writtenLines front ++ writtenLines back :=
  List.filterMap_append

/-- A command writes one line. -/
@[simp] theorem writtenLines_write (command : Command Line) (rest : List Step) :
    writtenLines (.write command :: rest) = command.written :: writtenLines rest := rfl

@[simp] theorem writtenLines_log (event : Event) (rest : List Step) :
    writtenLines (.log event :: rest) = writtenLines rest := rfl

@[simp] theorem writtenLines_mark (mark : Mark) (rest : List Step) :
    writtenLines (.mark mark :: rest) = writtenLines rest := rfl

/-- A line that is written with its indentation is one of the lines of the text. -/
private theorem lines_indented {l : String} (h : OneLine l) (level : Nat) (rest : List Char) :
    (Text.lines (indented level l ++ rest)).map (fun line => String.ofList (trim line)) =
      String.ofList (trim l.toList) ::
        (Text.lines rest).map fun line => String.ofList (trim line) := by
  unfold indented
  split
  · rename_i hempty
    have hnil : l.toList = [] := by simpa using hempty
    rw [hnil]
    rfl
  · have hline : '\n' ∉ List.replicate (4 * level) ' ' ++ l.toList := by
      simpa [List.mem_replicate, OneLine] using h
    rw [List.append_assoc, List.singleton_append, lines_append hline, List.map_cons, trim_indent]

/-- A command writes its line at some level. -/
theorem Command.chars_eq (command : Command Line) (level : Nat) :
    ∃ k, (command.map Line.text).chars level = indented k command.written.text := by
  cases command with
  | line l => exact ⟨level, rfl⟩
  | blank => exact ⟨level, rfl⟩
  | enter l => exact ⟨level, rfl⟩
  | leave l => exact ⟨level - 1, rfl⟩
  | turn l => exact ⟨level - 1, rfl⟩

/-- **Lines.**  The lines of the text of some steps are the lines that the steps write. -/
theorem codeLines_rendered {steps : List Step} (h : ∀ l ∈ writtenLines steps, OneLine l.text)
    (level : Nat) :
    codeLines (String.ofList (rendered level steps)) = (writtenLines steps).map Line.code := by
  unfold codeLines
  rw [String.toList_ofList]
  induction steps generalizing level with
  | nil => rfl
  | cons step rest ih =>
      cases step with
      | write command =>
          obtain ⟨hfirst, hrest⟩ := List.forall_mem_cons.mp h
          obtain ⟨k, hchars⟩ := command.chars_eq level
          rw [rendered, hchars, lines_indented hfirst, ih hrest, writtenLines_write, List.map_cons]
          rfl
      | log event => exact ih h level
      | mark m => exact ih h level

/-! ### What lines are made of -/

/-- An identifier is one line. -/
theorem HostName.IsProper.oneLine {n : HostName} (h : n.IsProper) : OneLine n.text :=
  oneLine_of_forall fun c hc => List.all_eq_true.mp (Atom.name_text h).2 c hc

/-- The identifier for a name is one line. -/
@[simp] theorem HostName.oneLine_escape (name : String) : OneLine (HostName.escape name).text :=
  (HostName.escape_isProper name).oneLine

/-- An operand is a single line. -/
theorem HostExpr.Operand.oneLine {e : HostExpr} (h : e.Operand) : OneLine e.text := by
  have harguments : ∀ {args : List HostExpr},
      (∀ a ∈ args, a.isInt = false → OneLine a.text) →
        OneLine (commaList (HostExpr.texts args)) := by
    intro args hargs
    refine oneLine_commaList ?_
    rw [HostExpr.texts_eq_map]
    refine List.forall_mem_map.mpr fun a ha => ?_
    cases a with
    | int v => exact oneLine_intText v
    | _ => exact hargs _ ha rfl
  induction h with
  | name hn => exact hn.oneLine
  | self => decide
  | field _ hn he =>
      unfold HostExpr.text
      simp +decide [he, hn.oneLine]
  | bool b => exact oneLine_boolText b
  | str s => exact oneLine_quote s
  | call hf _ hargs =>
      unfold HostExpr.text
      simp +decide [hf.oneLine, harguments hargs]
  | selfCall hf =>
      unfold HostExpr.text
      simp +decide [hf.oneLine]
  | method _ hm _ he hargs =>
      have hname := HostName.IsProper.oneLine hm
      unfold HostExpr.text
      simp +decide [he, harguments hargs]
      exact hname
  | prefixed op _ he =>
      unfold HostExpr.text
      cases op <;> simp +decide [HostPrefix.sign, he]
  | infixed op _ _ hl hr =>
      unfold HostExpr.text
      cases op <;> simp +decide [HostInfix.sign, hl, hr]

/-- The names, values and texts that a line contains. -/
def Line.parts : Line → List String
  | .comment _ text | .verbatim text => [text]
  | .useModule path module => [path, module.text]
  | .structDecl name | .implBlock name | .typeFn name | .fieldInit name | .ioValue name
  | .emptyIoValue name | .simUnitImpl name | .initUnit name | .dispatch _ name | .noProcess name
  | .processFn name => [name.text]
  | .fieldDecl name type | .letUnit name type _ => [name.text, type.text]
  | .result value | .writeInvalid value | .matchCond value | .letSelector value => [value.text]
  | .letConst name value => [name.text, value.text]
  | .letProxy name _ type init => [name.text, type.text, initText init]
  | .connect signal unit port => [signal.text, unit.text, port.text]
  | .setInterfaces values | .setUnits values | .setOutputs _ values | .elseIfMatches values =>
    values.map HostExpr.text
  | .setSensitivity _ triggers => triggers.map HostTrigger.text
  | .write proxy value => [proxy.text, value.text]
  | .writeAt proxy index value => [proxy.text, index.text, value.text]
  | .writeSlice proxy high low value => [proxy.text, high.text, low.text, value.text]
  | _ => []

/-- A line is a single line if its parts are. -/
theorem Line.oneLine_of_parts {l : Line} (h : ∀ part ∈ l.parts, OneLine part) :
    OneLine l.text := by
  cases l with
  | comment mark text =>
      have hmark : OneLine mark.text := by cases mark <;> decide
      have htext : OneLine text := h text (by simp [parts])
      change OneLine (commented mark.text text)
      unfold commented
      split
      · exact hmark
      · simp +decide [hmark, htext]
  | verbatim text => exact h text (by simp [parts])
  | close | closeField | newFn | letModel | selfValue | modelFn | modelRef | initBodyFn
  | runProcessFn | matchIndex | condTrue | condFalse | condFalseEmpty | condInvalid
  | condInvalidEmpty | bareBlock | ifSelectorInvalid | elseBlock => exact oneLine_of_chars rfl rfl
  | setInterfaces values | setUnits values | setOutputs _ values =>
      have hvalues : OneLine (commaList (values.map HostExpr.text)) := oneLine_commaList h
      unfold Line.text
      simp +decide [HostExpr.texts_eq_map, hvalues]
  | setSensitivity label triggers =>
      have htriggers : OneLine (commaList (triggers.map HostTrigger.text)) := oneLine_commaList h
      unfold Line.text
      simp +decide [htriggers]
  | setProcesses labels =>
      have hlabels : OneLine (commaList (labels.map quote)) :=
        oneLine_commaList (List.forall_mem_map.mpr fun label _ => oneLine_quote label)
      unfold Line.text
      simp +decide [hlabels]
  | elseIfMatches values =>
      have hvalues : OneLine (joinWith " || " (values.map matchesText)) := by
        refine oneLine_joinWith (by decide) (List.forall_mem_map.mpr fun value hvalue => ?_)
        have hpart : OneLine value.text := h _ (List.mem_map_of_mem hvalue)
        simp +decide [matchesText, hpart]
      unfold Line.text
      simp +decide [hvalues]
  | _ =>
      unfold Line.text
      simpa +decide [parts, and_assoc] using h

/-! ### How lines begin -/

/-- What stands in a line before the first of its parts. -/
def Line.front : Line → String
  | .comment _ _ => "//"
  | .useModule _ _ => "use "
  | .structDecl _ => "pub struct "
  | .fieldDecl _ _ => "pub "
  | .implBlock _ => "impl "
  | .typeFn _ | .processFn _ => "pub fn "
  | .letConst _ _ | .letProxy _ _ _ _ | .letUnit _ _ _ => "let "
  | .ioValue _ | .emptyIoValue _ => "io: "
  | .simUnitImpl _ => "impl SimUnit for "
  | .connect _ _ _ => "connect_sim_port(&"
  | .setInterfaces _ => "self.model.set_interfaces(vec!["
  | .setProcesses _ => "self.model.set_processes(&["
  | .setUnits _ => "self.model.set_units(vec!["
  | .setSensitivity _ _ => "self.model.set_sensitivity("
  | .setOutputs _ _ => "self.model.set_outputs("
  | .initUnit _ => "self."
  | .noProcess _ => "_ => unreachable!(\""
  | .matchCond _ => "match sim_eval_cond("
  | .letSelector _ => "let sel = "
  | .elseIfMatches _ => "\x7d else if "
  | .verbatim _ | .result _ | .fieldInit _ | .dispatch _ _ | .write _ _ | .writeAt _ _ _
  | .writeSlice _ _ _ _ | .writeInvalid _ => ""
  | l => l.text

/-- A line begins as its form says. -/
theorem Line.front_isPrefix (l : Line) : l.front.toList <+: l.text.toList := by
  cases l with
  | comment mark text =>
      change "//".toList <+: (commented mark.text text).toList
      unfold commented
      cases mark <;> split <;> simp [CommentMark.text]
  | close | closeField | newFn | letModel | selfValue | modelFn | modelRef | initBodyFn
  | runProcessFn | matchIndex | condTrue | condFalse | condFalseEmpty | condInvalid
  | condInvalidEmpty | bareBlock | ifSelectorInvalid | elseBlock => exact List.prefix_rfl
  | verbatim | result | fieldInit | dispatch | write | writeAt | writeSlice | writeInvalid =>
      exact List.nil_prefix
  | _ =>
      unfold Line.text Line.front
      simp only [String.toList_append, List.append_assoc, List.prefix_append]

/-- Whether two words differ somewhere before the end of the shorter one. -/
def Text.differ (word other : String) : Bool :=
  word.toList.take other.toList.length != other.toList.take word.toList.length

/-- A line does not begin with a word if it begins with one that differs. -/
theorem Text.not_isPrefix_of_differ {word other : String} {cs : List Char}
    (hother : other.toList <+: cs) (h : differ word other = true) : ¬ word.toList <+: cs := by
  intro hword
  have hshared : word.toList.take other.toList.length <+: cs := (List.take_prefix _ _).trans hword
  have hshared' : other.toList.take word.toList.length <+: cs :=
    (List.take_prefix _ _).trans hother
  have hlength : (word.toList.take other.toList.length).length =
      (other.toList.take word.toList.length).length := by
    simp only [List.length_take, Nat.min_comm]
  have hboth : word.toList.take other.toList.length = other.toList.take word.toList.length :=
    (List.prefix_of_prefix_length_le hshared hshared' (Nat.le_of_eq hlength)).eq_of_length hlength
  simp [differ, hboth] at h

/-- A word with which a line can begin: there is no white space in front. -/
def Text.isFlush (word : String) : Bool := word.toList.head?.any fun c => !isBlank c

/-- What is left of a line that has no white space in front stands at its beginning. -/
theorem Line.code_isPrefix {l : Line} {front : String} (hfront : front.toList <+: l.text.toList)
    (hflush : isFlush front = true) : l.code.toList <+: l.text.toList := by
  obtain ⟨rest, htext⟩ := hfront
  unfold Line.code
  rw [String.toList_ofList, ← htext]
  cases hform : front.toList with
  | nil => simp [isFlush, hform] at hflush
  | cons c cs =>
      refine trim_isPrefix ?_
      simpa [isFlush, hform] using hflush

/-- Whether a word has no white space behind it. -/
def Text.isFlushEnd (word : String) : Bool := word.toList.getLast?.any fun c => !isBlank c

/-- A line with no white space at its ends stands in the text as it is. -/
theorem Line.code_eq {l : Line} {text : String} (htext : l.text = text) (front back : String)
    (hfront : front.toList <+: text.toList) (hback : back.toList <:+ text.toList)
    (hflush : (isFlush front && isFlushEnd back) = true) : l.code = text := by
  obtain ⟨hflush, hflushEnd⟩ := Bool.and_eq_true_iff.mp hflush
  obtain ⟨rest, hrest⟩ := hfront
  obtain ⟨start, hstart⟩ := hback
  unfold Line.code
  rw [htext, trim_eq_self, String.ofList_toList]
  · rw [← hrest]
    cases hform : front.toList with
    | nil => simp [isFlush, hform] at hflush
    | cons c cs => simpa [isFlush, hform] using hflush
  · rw [← hstart]
    rcases List.eq_nil_or_concat back.toList with hform | ⟨ds, d, hform⟩
    · simp [isFlushEnd, hform] at hflushEnd
    · simpa [isFlushEnd, hform] using hflushEnd

/-- A line of a model that is not marked by any of the given words. -/
structure Line.Tidy (marks : List String) (l : Line) : Prop where
  oneLine : OneLine l.text
  unmarked : ∀ word ∈ marks, begins word l.code = false

/-- A line that avoids marks avoids any of them. -/
theorem Line.Tidy.mono {marks marks' : List String} {l : Line} (h : l.Tidy marks)
    (hsub : ∀ word ∈ marks', word ∈ marks) : l.Tidy marks' :=
  ⟨h.oneLine, fun word hword => h.unmarked word (hsub word hword)⟩

/-- A line that does not begin with a word does not do so without its indentation either. -/
theorem Line.begins_code_eq_false {l : Line} {word front : String}
    (hfront : front.toList <+: l.text.toList) (hflush : isFlush front = true)
    (hword : ¬ word.toList <+: l.text.toList) : begins word l.code = false := by
  rw [Bool.eq_false_iff]
  intro hbegins
  exact hword ((begins_iff.mp hbegins).trans (Line.code_isPrefix hfront hflush))

/-- A line is unmarked if it begins with a word that differs from all marks. -/
theorem Line.tidy_of_isPrefix {marks : List String} {l : Line} (front : String)
    (hfront : front.toList <+: l.text.toList)
    (hdiffer : (isFlush front && marks.all fun word => differ word front) = true)
    (hparts : ∀ part ∈ l.parts, OneLine part) : l.Tidy marks := by
  obtain ⟨hflush, hall⟩ := Bool.and_eq_true_iff.mp hdiffer
  refine ⟨Line.oneLine_of_parts hparts, fun word hword => ?_⟩
  exact Line.begins_code_eq_false hfront hflush
    (not_isPrefix_of_differ hfront (List.all_eq_true.mp hall word hword))

/-- The same for a line whose form tells how it begins. -/
theorem Line.tidy_of_front {marks : List String} {l : Line} (front : String)
    (hform : l.front = front)
    (hdiffer : (isFlush front && marks.all fun word => differ word front) = true)
    (hparts : ∀ part ∈ l.parts, OneLine part) : l.Tidy marks :=
  Line.tidy_of_isPrefix front (hform ▸ l.front_isPrefix) hdiffer hparts

/-- The words that mark registrations and the function that runs processes. -/
def unitMarks : List String := ["self.model.set_", "fn run_process"]

/-- The words that mark these, blocks of functions and public functions. -/
def functionMarks : List String := unitMarks ++ ["impl ", "pub fn "]

/-- A line that avoids the marks of functions avoids those of units. -/
theorem Line.Tidy.unit {l : Line} (h : l.Tidy functionMarks) : l.Tidy unitMarks :=
  h.mono fun _ hword => List.mem_append_left _ hword

/-- A word of name characters ends where another character stands. -/
theorem Text.eq_of_isPrefix_word (word : List Char) {rest name tail : List Char} {c d : Char}
    (hword : word.all isNameChar = true) (hc : isNameChar c = false)
    (hname : ∀ a ∈ name, isNameChar a = true) (hd : isNameChar d = false)
    (h : word ++ c :: rest <+: name ++ d :: tail) : c :: rest <+: d :: tail := by
  obtain ⟨more, hmore⟩ := h
  have hdrop := congrArg (List.dropWhile isNameChar) hmore
  rw [List.append_assoc, List.dropWhile_append_of_pos (List.all_eq_true.mp hword),
    List.dropWhile_append_of_pos hname, List.cons_append, List.dropWhile_cons_of_neg (by simp [hc]),
    List.dropWhile_cons_of_neg (by simp [hd])] at hdrop
  exact ⟨more, hdrop⟩

end HdlSim
