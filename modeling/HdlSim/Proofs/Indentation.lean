import HdlSim.Proofs.Brackets
import HdlSim.Proofs.Composition
import HdlSim.Proofs.Truncation

/-!
# Generated text is well laid out

A reader of generated text who counts blocks, one more behind a line that begins one and one fewer
before a line that ends one, never counts below zero and comes out at zero, and finds every line
indented by four spaces for each block around it.  Nor are there ever two empty lines in a row
(`Text.LaidOut`).

The count of blocks is that of the writer (`scan_rendered`), and where a script puts its empty lines
is known from its parts (`Script.Spread`).  So each module leaves a well laid out text well laid out
(`Session.emit_laid`).

Main statement: `lowerDesign_laidOut`.
-/

namespace HdlSim

open Script

namespace Text

/-! ### Layout -/

/-- **One line.**  The number of open blocks behind a line, given the number before it.  There is
none if the line ends a block where none is open, or if it is not empty and the white space in front
of it is not four spaces for each block around it. -/
def depthBehind (depth : Nat) (line : List Char) : Option Nat :=
  let around := if closes line then depth - 1 else depth
  if closes line ∧ depth = 0 then none
  else if line = [] ∨ line.takeWhile isBlank = List.replicate (4 * around) ' ' then
    some (if opens line then around + 1 else around)
  else none

/-- The number of open blocks behind some lines. -/
def scan (depth : Nat) (lines : List (List Char)) : Option Nat := lines.foldlM depthBehind depth

/-- **A well laid out text.** -/
structure LaidOut (text : String) : Prop where
  indented : scan 0 (lines text.toList) = some 0
  spaced : ¬ [[], []] <:+: lines text.toList

@[simp] theorem scan_nil (depth : Nat) : scan depth [] = some depth := rfl

theorem scan_cons (depth : Nat) (line : List Char) (rest : List (List Char)) :
    scan depth (line :: rest) = (depthBehind depth line).bind fun inner => scan inner rest :=
  List.foldlM_cons

private theorem scan_append (depth : Nat) (front back : List (List Char)) :
    scan depth (front ++ back) = (scan depth front).bind fun inner => scan inner back :=
  List.foldlM_append

/-! ### Lines with indentation -/

/-- Indentation does not make a comment. -/
theorem isComment_indent (k : Nat) (cs : List Char) :
    isComment (List.replicate k ' ' ++ cs) = isComment cs := by
  unfold isComment
  rw [List.dropWhile_append_of_pos fun c hc => by simp [List.eq_of_mem_replicate hc]]

private theorem closes_indent (k : Nat) (cs : List Char) :
    closes (List.replicate k ' ' ++ cs) = closes cs := by
  unfold closes
  rw [isComment_indent,
    List.dropWhile_append_of_pos fun c hc => by simp [List.eq_of_mem_replicate hc]]

private theorem opens_indent (k : Nat) {cs : List Char} (h : cs ≠ []) :
    opens (List.replicate k ' ' ++ cs) = opens cs := by
  unfold opens
  rw [isComment_indent, List.getLast?_append, List.getLast?_eq_some_getLast h, Option.some_or]

/-- The indentation of a line is all the blanks in front. -/
private theorem takeWhile_indent (k : Nat) {c : Char} (h : isBlank c = false) (cs : List Char) :
    (List.replicate k ' ' ++ c :: cs).takeWhile isBlank = List.replicate k ' ' := by
  have hspaces : ∀ a ∈ List.replicate k ' ', isBlank a = true := by
    intro a ha
    rw [List.eq_of_mem_replicate ha]
    decide
  rw [List.takeWhile_append_of_pos hspaces, List.takeWhile_cons_of_neg (by simp [h]),
    List.append_nil]

/-- What a line does to the number of open blocks, at the level at which it belongs. -/
theorem depthBehind_of_bracketed {closing opening : Bool} {text : String}
    (h : Bracketed closing opening text) {depth : Nat} (hdepth : closing = true → depth ≠ 0) :
    let around := if closing then depth - 1 else depth
    depthBehind depth (List.replicate (4 * around) ' ' ++ text.toList) =
      some (if opening then around + 1 else around) := by
  obtain ⟨c, cs, hform, hblank⟩ := exists_cons_of_flush h.flush
  have hne : text.toList ≠ [] := by simp [hform]
  intro around
  unfold depthBehind
  rw [closes_indent, opens_indent _ hne, h.closes, h.opens]
  have hzero : ¬ (closing = true ∧ depth = 0) := fun hboth => hdepth hboth.1 hboth.2
  have hspaces : (List.replicate (4 * around) ' ' ++ text.toList).takeWhile isBlank =
      List.replicate (4 * around) ' ' := by
    rw [hform]
    exact takeWhile_indent _ hblank cs
  rw [if_neg hzero, if_pos (.inr hspaces)]

/-! ### Empty lines -/

/-- Among lines of which some are empty no two empty ones are next to each other, with a line in
front that is empty only if `before`, and one that may be empty at the end only if `after`. -/
def Spaced (before after : Bool) : List Bool → Prop
  | [] => before = true → after = true
  | blank :: rest => (before = true → blank = false) ∧ Spaced blank after rest

instance decidableSpaced (before after : Bool) :
    (blanks : List Bool) → Decidable (Spaced before after blanks)
  | [] => inferInstanceAs (Decidable (before = true → after = true))
  | blank :: rest =>
    have := decidableSpaced blank after rest
    inferInstanceAs (Decidable ((before = true → blank = false) ∧ Spaced blank after rest))

/-- What may follow an empty line may follow any line. -/
theorem Spaced.of_true {after : Bool} {blanks : List Bool} (h : Spaced true after blanks)
    (before : Bool) : Spaced before after blanks := by
  cases blanks with
  | nil => exact fun _ => h rfl
  | cons blank rest => exact ⟨fun _ => h.1 rfl, h.2⟩

/-- Empty lines in two lists of lines. -/
theorem Spaced.append {before mid after : Bool} {front back : List Bool}
    (hfront : Spaced before mid front) (hback : Spaced mid after back) :
    Spaced before after (front ++ back) := by
  induction front generalizing before with
  | nil =>
      cases mid with
      | true => exact hback.of_true before
      | false =>
          cases before with
          | true => exact absurd (hfront rfl) (by decide)
          | false => exact hback
  | cons blank rest ih => exact ⟨hfront.1, ih hfront.2⟩

private theorem Spaced.not_infix {before after : Bool} {blanks : List Bool}
    (h : Spaced before after blanks) : ¬ [true, true] <:+: blanks := by
  induction blanks generalizing before with
  | nil => simp
  | cons blank rest ih =>
      rw [List.infix_cons_iff]
      rintro (hfront | hinside)
      · obtain ⟨rfl, hsecond⟩ := List.cons_prefix_cons.mp hfront
        obtain ⟨tail, rfl⟩ := hsecond
        exact absurd (h.2.1 rfl) (by decide)
      · exact ih h.2 hinside

/-! ### Pieces of text -/

/-- A piece of text that does not end in the middle of a line. -/
def Whole (cs : List Char) : Prop := ∀ rest, lines (cs ++ rest) = lines cs ++ lines rest

theorem whole_nil : Whole [] := fun _ => rfl

/-- Two texts that end with their lines. -/
theorem Whole.append {front back : List Char} (hfront : Whole front) (hback : Whole back) :
    Whole (front ++ back) := by
  intro rest
  rw [List.append_assoc, hfront, hfront, hback, List.append_assoc]

/-- One line is the only line of its text. -/
theorem lines_line {line : List Char} (h : '\n' ∉ line) : lines (line ++ ['\n']) = [line] := by
  rw [lines_append h]
  rfl

private theorem lines_ne_nil {cs : List Char} (h : cs ≠ []) : lines cs ≠ [] := by
  obtain ⟨c, rest, rfl⟩ := List.exists_cons_of_ne_nil h
  unfold lines
  split
  · simp
  · split <;> simp

/-- A line feed ends the last line, whatever stands in front of it. -/
theorem whole_newline (cs : List Char) : Whole (cs ++ ['\n']) := by
  intro rest
  rw [List.append_assoc, List.singleton_append]
  induction cs with
  | nil => rfl
  | cons c cs ih =>
      rw [List.cons_append, List.cons_append, lines, lines, ih]
      split
      · rfl
      · cases hlines : lines (cs ++ ['\n']) with
        | nil => exact absurd hlines (lines_ne_nil (by simp))
        | cons line more => rfl

/-- **A well laid out piece of text.**  It begins and ends outside of all blocks. -/
structure Laid (before after : Bool) (cs : List Char) : Prop where
  whole : Whole cs
  indented : scan 0 (lines cs) = some 0
  spaced : Spaced before after ((lines cs).map List.isEmpty)

/-- Two pieces of text that are laid out. -/
theorem Laid.append {before mid after : Bool} {front back : List Char}
    (hfront : Laid before mid front) (hback : Laid mid after back) :
    Laid before after (front ++ back) := by
  refine ⟨hfront.whole.append hback.whole, ?_, ?_⟩
  · rw [hfront.whole, scan_append, hfront.indented]
    exact hback.indented
  · rw [hfront.whole, List.map_append]
    exact hfront.spaced.append hback.spaced

/-- A piece that may stand at the beginning is laid out. -/
private theorem Laid.laidOut {after : Bool} {text : String} (h : Laid false after text.toList) :
    LaidOut text := by
  refine ⟨h.indented, fun hempty => h.spaced.not_infix ?_⟩
  exact hempty.map List.isEmpty

end Text

open Text

/-! ### Commands -/

namespace Command

/-- Whether a command writes an empty line. -/
def isBlank : Command Line → Bool
  | .blank => true
  | .line _ | .enter _ | .leave _ | .turn _ => false

/-- The level at which the line of a command is written. -/
def levelOf (c : Command Line) (level : Nat) : Nat := if c.closing then level - 1 else level

/-- The line that a command writes, with its indentation. -/
def lineAt (c : Command Line) (level : Nat) : List Char :=
  if c.isBlank then [] else List.replicate (4 * c.levelOf level) ' ' ++ c.written.text.toList

/-- A command writes its line at the level of the command. -/
theorem chars_eq_indented (c : Command Line) (level : Nat) :
    (c.map Line.text).chars level = indented (c.levelOf level) c.written.text := by
  cases c <;> rfl

variable {c : Command Line}

private theorem isBlank_eq_false (h : c ≠ .blank) : c.isBlank = false := by
  cases c with
  | blank => exact absurd rfl h
  | _ => rfl

/-- A line that is shaped begins without blanks. -/
theorem Shaped.flush (h : c.Shaped) (hblank : c.isBlank = false) :
    isFlush c.written.text = true := by
  refine (h.bracketed ?_).flush
  rintro rfl
  exact absurd hblank (by decide)

/-- A command writes its line and a line break. -/
theorem Shaped.chars_eq (h : c.Shaped) (level : Nat) :
    (c.map Line.text).chars level = c.lineAt level ++ ['\n'] := by
  rw [chars_eq_indented, lineAt]
  cases hblank : c.isBlank with
  | true =>
      obtain rfl : c = .blank := by cases c <;> simp [isBlank] at hblank ⊢
      rfl
  | false =>
      rw [indented, isEmpty_of_flush (h.flush hblank)]
      rfl

/-- There is no line break in the line of a command. -/
theorem Shaped.newline_not_mem (h : c.Shaped) (level : Nat) : '\n' ∉ c.lineAt level := by
  unfold lineAt
  split
  · simp
  · intro hmem
    rcases List.mem_append.mp hmem with hspace | htext
    · exact absurd (List.eq_of_mem_replicate hspace) (by decide)
    · exact h.oneLine htext

/-- The line of a command is empty only if the command says so. -/
private theorem Shaped.isEmpty_lineAt (h : c.Shaped) (level : Nat) :
    (c.lineAt level).isEmpty = c.isBlank := by
  rw [lineAt]
  cases hblank : c.isBlank with
  | true => rfl
  | false =>
      obtain ⟨a, as, hform, -⟩ := exists_cons_of_flush (h.flush hblank)
      simp [hform]

/-- A reader who counts blocks counts as the writer does. -/
theorem Shaped.depthBehind_lineAt (h : c.Shaped) {level inner : Nat}
    (hdepth : c.depthAfter level = some inner) :
    depthBehind level (c.lineAt level) = some inner := by
  cases c with
  | line l =>
      obtain rfl : level = inner := Option.some.inj hdepth
      exact depthBehind_of_bracketed (h.bracketed (by simp)) (fun hclosing => nomatch hclosing)
  | blank => exact hdepth
  | enter l =>
      obtain rfl : level + 1 = inner := Option.some.inj hdepth
      exact depthBehind_of_bracketed (h.bracketed (by simp)) (fun hclosing => nomatch hclosing)
  | leave l =>
      obtain ⟨hopen, rfl⟩ : level ≠ 0 ∧ level - 1 = inner := by
        simpa [depthAfter] using hdepth
      exact depthBehind_of_bracketed (h.bracketed (by simp)) (fun _ => hopen)
  | turn l =>
      obtain ⟨hopen, rfl⟩ : level ≠ 0 ∧ level = inner := by
        simpa [depthAfter] using hdepth
      have hback : level - 1 + 1 = level := by omega
      have hline := depthBehind_of_bracketed (h.bracketed (by simp)) (fun _ => hopen)
      exact hline.trans (congrArg some hback)

end Command

/-- Which of the lines that some steps write are empty. -/
def blanks (steps : List Step) : List Bool :=
  steps.filterMap fun
    | .write command => some command.isBlank
    | .log _ | .mark _ => none

/-- **The lines of some steps** are as deep as the blocks in which they are written. -/
theorem scan_rendered {steps : List Step} (h : ∀ c, Step.write c ∈ steps → c.Shaped)
    {level depth : Nat} (hdepth : depthAfter level steps = some depth) :
    Whole (rendered level steps) ∧ scan level (lines (rendered level steps)) = some depth ∧
      (lines (rendered level steps)).map List.isEmpty = blanks steps := by
  induction steps generalizing level with
  | nil => exact ⟨whole_nil, hdepth, rfl⟩
  | cons step rest ih =>
      have hrest : ∀ c, Step.write c ∈ rest → c.Shaped :=
        fun c hc => h c (List.mem_cons_of_mem _ hc)
      cases step with
      | write command =>
          obtain ⟨inner, hinner, hafter⟩ := Option.bind_eq_some_iff.mp hdepth
          have hshaped := h command List.mem_cons_self
          have hline := hshaped.newline_not_mem level
          obtain ⟨hwhole, hscan, hblanks⟩ := ih hrest hafter
          have hlines : lines (rendered level (.write command :: rest)) =
              command.lineAt level :: lines (rendered inner rest) := by
            rw [rendered, hshaped.chars_eq, Command.levelAfter_of_depthAfter hinner, whole_newline,
              lines_line hline]
            rfl
          refine ⟨?_, ?_, ?_⟩
          · rw [rendered, hshaped.chars_eq, Command.levelAfter_of_depthAfter hinner]
            exact (whole_newline _).append hwhole
          · rw [hlines, scan_cons, hshaped.depthBehind_lineAt hinner]
            exact hscan
          · rw [hlines, List.map_cons, hshaped.isEmpty_lineAt, hblanks]
            rfl
      | log event => exact ih hrest hdepth
      | mark m => exact ih hrest hdepth

/-! ### Scripts -/

namespace Script

variable {α β : Type} {before mid after : Bool}

/-- **Empty lines of a script.**  If it succeeds it has written no two empty lines in a row.  The
line in front of it may be empty if `before`, and its last line if `after`. -/
def Spread (before after : Bool) (s : Script α) : Prop :=
  ∀ a, s.outcome = .ok a → Spaced before after (blanks s.steps)

/-- Empty lines in two scripts in a row. -/
theorem spread_bind {s : Script α} {f : α → Script β} (hs : Spread before mid s)
    (hf : ∀ a, Spread mid after (f a)) : Spread before after (s >>= f) := by
  intro b hb
  obtain ⟨a, front, back, hfront, hback, hsteps⟩ := yields_bind_iff.mp (yields_of_outcome hb)
  rw [hsteps, blanks, List.filterMap_append]
  have hfirst := hs a (congrArg Script.outcome hfront)
  have hsecond := hf a b (congrArg Script.outcome hback)
  rw [congrArg Script.steps hfront] at hfirst
  rw [congrArg Script.steps hback] at hsecond
  exact hfirst.append hsecond

/-- A computation in front has no lines. -/
theorem spread_lift {x : Except Failure α} {f : α → Script β}
    (hf : ∀ a, Spread before after (f a)) : Spread before after ((liftM x : Script α) >>= f) :=
  spread_bind (fun _ _ hbefore => hbefore) hf

/-- A script that only returns has no lines. -/
theorem spread_pure (a : α) :
    Spread before before (pure a : Script α) := fun _ _ hbefore => hbefore

private theorem spread_log (event : Event) :
    Spread before before (log event) := fun _ _ hbefore => hbefore

/-- A line that is not empty may stand anywhere, and anything behind it. -/
theorem spread_write {command : Command Line} (h : command.isBlank = false) :
    Spread before after (step (.write command)) := by
  intro _ _
  show Spaced before after [command.isBlank]
  rw [h]
  exact ⟨fun _ => rfl, fun hblank => nomatch hblank⟩

theorem spread_line (l : Line) : Spread before after (line l) := spread_write rfl

theorem spread_enter (l : Line) : Spread before after (enter l) := spread_write rfl

theorem spread_leave : Spread before after leave := spread_write rfl

/-- An empty line goes behind one that is not empty. -/
theorem spread_blank : Spread false true blank :=
  fun _ _ => ⟨(nomatch ·), fun _ => rfl⟩

/-- Scripts for the members of a list. -/
theorem spread_forEach {xs : List α} {f : α → Script Unit}
    (h : ∀ x, Spread before before (f x)) :
    Spread before before (forEach xs f) := by
  induction xs with
  | nil => exact spread_pure ()
  | cons x xs ih => exact spread_bind (h x) fun _ => ih

/-- Comments are not empty lines. -/
theorem spread_doc (mark : CommentMark) (text : Option String) :
    Spread before before (doc mark text) := by
  cases text with
  | none => exact spread_pure ()
  | some text => exact spread_forEach fun l => spread_line l

/-- Whatever stands in a block, its first and its last line are not empty. -/
theorem spread_enclosed (l : Line) {body : Script α} (hbody : Spread false mid body) :
    Spread before after (enclosed l body) := by
  have hleave : Spread mid after leave := spread_leave
  exact spread_bind (spread_enter l) fun _ => spread_bind hbody fun _ =>
    spread_bind hleave fun _ => spread_pure _

private theorem spread_of_each {s : Script α} (h : Each (fun c => c.isBlank = false) s) :
    Spread false false s := by
  intro _ _
  have hall : ∀ blank ∈ blanks s.steps, blank = false := by
    intro blank hblank
    obtain ⟨step, hstep, hsome⟩ := List.mem_filterMap.mp hblank
    cases step with
    | write command =>
        obtain rfl := Option.some.inj hsome
        exact h command hstep
    | log event => cases hsome
    | mark m => cases hsome
  generalize blanks s.steps = blanks at hall
  induction blanks with
  | nil => exact fun hbefore => hbefore
  | cons blank rest ih =>
      obtain ⟨rfl, hrest⟩ := List.forall_mem_cons.mp hall
      exact ⟨fun _ => rfl, ih hrest⟩

/-- **A script that lays out its text.** -/
theorem laid_rendered {s : Script α} {a : α} (hnests : Nests 0 0 s)
    (hshaped : Each Command.Shaped s) (hspread : Spread before after s) (hok : s.outcome = .ok a) :
    Laid before after (rendered 0 s.steps) := by
  obtain ⟨depth, hdepth, -, hstop⟩ := hnests 0
  obtain rfl := hstop a hok
  obtain ⟨hwhole, hscan, hblanks⟩ := scan_rendered hshaped hdepth
  refine ⟨hwhole, hscan, ?_⟩
  rw [hblanks]
  exact hspread a hok

end Script

open Script

/-! ### Models -/

namespace Model

variable {m : Model}

/-- What stands inside of blocks has no empty lines. -/
theorem spread_inside {α : Type} {s : Script α} (h : Made (m.Takes false true true) 0 0 s) :
    Spread false false s :=
  spread_of_each (h.each fun c hc => Command.isBlank_eq_false (by
    rintro rfl
    cases hc with
    | plain _ hplain => cases hplain
    | blank hblanks => cases hblanks
    | register _ hline _ => cases hline))

/-- Imports end with an empty line, if there are any. -/
private theorem spread_imports (settings : Settings) : Spread true true (m.imports settings) := by
  unfold imports
  cases settings.modulePath with
  | none => exact spread_pure ()
  | some path =>
      refine spread_lift fun names => ?_
      cases names with
      | nil => exact spread_bind (spread_pure ()) fun _ => spread_pure ()
      | cons name names =>
          have hlines : Spread true false (lines ((name :: names).map (Line.useModule path))) :=
            spread_bind (spread_line _) fun _ => spread_forEach fun l => spread_line l
          exact spread_bind hlines fun _ => spread_blank

private theorem spread_structures : Spread true true m.structures := by
  have hfields : Spread false false m.fieldLines := spread_inside made_fieldLines
  have hproxies : Spread false false m.proxyLines := spread_inside made_proxyLines
  rw [structures_eq]
  exact spread_bind (spread_doc _ _) fun _ => spread_bind (spread_enclosed _ hfields) fun _ =>
    spread_bind spread_blank fun _ => spread_bind (spread_enclosed _ hproxies) fun _ => spread_blank

/-- The function for a type ends with an empty line. -/
private theorem spread_typeFunction (t : TypeItem) : Spread true true (m.typeFunction t) := by
  have hresult : ∀ v, Spread false false (line (.result v)) := fun v => spread_line _
  rw [typeFunction_eq]
  exact spread_lift fun _ => spread_lift fun _ => spread_bind (spread_doc _ _) fun _ =>
    spread_lift fun _ => spread_bind (spread_enclosed _ (hresult _)) fun _ => spread_blank

/-- The functions for types stand at the beginning of a block, and each has an empty line behind
it. -/
theorem spread_constructor : Spread true true m.constructor := by
  have hnew : Spread false false m.newBody := spread_inside made_newBody
  have hmakers : Spread true false m.makers :=
    spread_bind (spread_forEach fun t => spread_typeFunction t) fun _ => spread_enclosed _ hnew
  rw [constructor_eq]
  exact spread_bind (spread_enclosed _ fun a ha => (hmakers a ha).of_true false) fun _ =>
    spread_blank

private theorem spread_simUnit : Spread true false m.simUnit := by
  have hmodel : Spread false false (line .modelRef) := spread_line _
  have hwiring : Spread false false m.wiring := spread_inside made_wiring
  have hdispatcher : Spread false false m.dispatcher := spread_inside made_dispatcher
  have hcallbacks : Spread false false m.callbacks :=
    spread_bind (spread_enclosed _ hmodel) fun _ => spread_bind spread_blank fun _ =>
      spread_bind (spread_enclosed _ hwiring) fun _ => spread_bind spread_blank fun _ =>
      spread_bind (spread_enclosed _ hdispatcher) fun _ => spread_pure _
  rw [simUnit_eq]
  exact spread_enclosed _ hcallbacks

/-- The function for a process. -/
theorem spread_processFunction (p : ProcessDecl) :
    Spread true false (m.processFunction p) := by
  have hbody : ∀ object, Spread false false ((m.site .process object).block p.body) :=
    fun _ => spread_inside ((Site.made_statements p.body).mono fun _ => Takes.of_statement)
  rw [processFunction_eq]
  exact spread_lift fun _ => spread_bind (spread_doc _ _) fun _ => spread_lift fun _ =>
    spread_bind (spread_enclosed _ (hbody _)) fun _ => spread_log _

/-- The functions for the processes begin with an empty line. -/
private theorem spread_processes : Spread false false m.processes := by
  have hfunctions : ∀ p ps, Spread true false (m.processFunctions (p :: ps)) := fun p ps =>
    spread_bind (spread_processFunction p) fun _ => spread_forEach fun q =>
      spread_bind spread_blank fun _ => spread_processFunction q
  rw [processes_eq]
  split
  · exact spread_pure ()
  · rename_i hne
    obtain ⟨p, ps, hps⟩ := List.exists_cons_of_ne_nil hne
    rw [hps]
    exact spread_bind spread_blank fun _ => spread_enclosed _ fun a ha =>
      (hfunctions p ps a ha).of_true false

/-- **Models.**  The text of a model may follow an empty line.  It has no two in a row, and does not
end with one. -/
theorem spread_script (settings : Settings) : Spread true false (m.script settings) := by
  unfold script
  exact spread_bind (spread_imports settings) fun _ => spread_bind spread_structures fun _ =>
    spread_bind spread_constructor fun _ => spread_bind spread_simUnit fun _ =>
    spread_bind spread_processes fun _ => spread_pure _

/-- The lines of a model show at their ends which blocks begin and end, and so do its imports. -/
theorem made_shaped {settings : Settings} (hpath : ∀ path ∈ settings.modulePath, OneLine path)
    {n : Nat} : Made (Step.Writes Command.Shaped) n n (m.script settings) := by
  refine made_script (fun path hmem names hnames name hname => ?_) (Writes.blank (m := m)).shaped ?_
  · have hpathLine : OneLine path := hpath path hmem
    have hnameLine : OneLine name.text := importNames_oneLine hnames name hname
    refine ⟨Line.oneLine_of_parts ?_, fun _ => Line.bracketed_of_form rfl rfl rfl⟩
    simp [Command.written, Line.parts, hpathLine, hnameLine]
  · intro st hst
    cases st with
    | write c => exact hst.writes.shaped
    | log event => exact trivial
    | mark mark => exact trivial

/-- **The text of a model** is well laid out behind any line, and its last line is not empty. -/
theorem laid_script {settings : Settings} (hpath : ∀ path ∈ settings.modulePath, OneLine path)
    {summary : Summary} (h : (m.script settings).outcome = .ok summary) :
    Laid true false (rendered 0 (m.script settings).steps) := by
  have hmade : Made (Step.Writes Command.Shaped) 0 0 (m.script settings) := made_shaped hpath
  exact laid_rendered hmade.nests (hmade.each fun _ hc => hc) (spread_script settings) h

end Model

/-! ### Designs -/

/-- The lines of texts that are put one below the other. -/
theorem lines_join {texts : List String} (h : ∀ text ∈ texts, OneLine text) :
    Whole (String.join (texts.map (· ++ "\n"))).toList ∧
      lines (String.join (texts.map (· ++ "\n"))).toList = texts.map String.toList := by
  induction texts with
  | nil => exact ⟨whole_nil, rfl⟩
  | cons text rest ih =>
      obtain ⟨htext, hrest⟩ := List.forall_mem_cons.mp h
      obtain ⟨hwhole, hlines⟩ := ih hrest
      have hform : (String.join ((text :: rest).map (· ++ "\n"))).toList =
          (text.toList ++ ['\n']) ++ (String.join (rest.map (· ++ "\n"))).toList := by
        rw [List.map_cons, String.join_cons, String.toList_append, String.toList_append]
        rfl
      rw [hform]
      refine ⟨(whole_newline _).append hwhole, ?_⟩
      rw [whole_newline, lines_line htext, hlines]
      rfl

private theorem laid_join {before after : Bool} {texts : List String}
    (h : ∀ text ∈ texts, OneLine text) (hscan : scan 0 (texts.map String.toList) = some 0)
    (hspaced : Spaced before after ((texts.map String.toList).map List.isEmpty)) :
    Laid before after (String.join (texts.map (· ++ "\n"))).toList := by
  obtain ⟨hwhole, hlines⟩ := lines_join h
  refine ⟨hwhole, ?_, ?_⟩
  · rw [hlines, hscan]
  · rw [hlines]
    exact hspaced

/-- The preamble, and the empty line behind it. -/
theorem laid_preamble : Laid true true (preambleText ++ "\n").toList := by
  have hform : preambleText ++ "\n" = String.join ((preamble ++ [""]).map (· ++ "\n")) := by
    simp [preambleText]
  obtain ⟨lines, hchars, hone, hscan, hspaced⟩ : ∃ lines : List (List Char),
      preamble ++ [""] = lines.map String.ofList ∧ (∀ line ∈ lines, '\n' ∉ line) ∧
        scan 0 lines = some 0 ∧ Spaced true true (lines.map List.isEmpty) :=
    ⟨[_, _, _, _, _, _, _, _, _], rfl, by decide, by decide, by decide⟩
  have htexts : (lines.map String.ofList).map String.toList = lines := by simp
  rw [hform, hchars]
  refine laid_join (List.forall_mem_map.mpr fun line hline => ?_) ?_ ?_
  · rw [OneLine, String.toList_ofList]
    exact hone line hline
  · rw [htexts, hscan]
  · rw [htexts]
    exact hspaced

namespace Session

/-- What stands in front of a module. -/
theorem laid_lead (s : Session) (settings : Settings) :
    Laid false true (s.lead settings).toList := by
  have hempty : ∀ {before : Bool}, Laid before true "".toList :=
    ⟨whole_nil, rfl, fun _ => rfl⟩
  have hseparator : Laid false true (if s.modules = 0 then "" else "\n").toList := by
    split
    · exact hempty
    · exact ⟨whole_newline [], by decide, by decide⟩
  have hpreamble : Laid true true (if settings.sharedPreamble && !s.preambleShared then
      preambleText ++ "\n" else "").toList := by
    split
    · exact laid_preamble
    · exact hempty
  unfold lead
  rw [String.toList_append]
  exact hseparator.append hpreamble

/-- **One module** after another. -/
theorem emit_laid {s : Session} (hlimit : s.writer.sink.limit = none) (hlevel : s.writer.level = 0)
    (hlaid : Laid false false s.text.toList) {names : NameTable} {settings : Settings}
    (hpath : ∀ path ∈ settings.modulePath, OneLine path) {m : Module} {summary : Summary}
    (h : (s.emit names settings m).result = .ok summary) :
    (s.emit names settings m).session.writer.level = 0 ∧
      Laid false false (s.emit names settings m).session.text.toList := by
  cases hname : names.resolve? m.name with
  | none =>
      unfold emit at h
      simp [hname] at h
  | some name =>
      obtain ⟨hresult, hsession⟩ := emit_eq_run hname settings s
      rw [hresult, run_unlimited hlimit] at h
      obtain ⟨model, hmodel, hscript⟩ :=
        Except.bind_eq_ok_iff.mp ((moduleScript_outcome _ _ _ _).symm.trans h)
      have hafter := after_moduleScript hlevel hmodel h
      rw [← perform_eq_after (perform_unlimited hlimit _)] at hafter
      rw [hsession]
      show (s.perform _).1.writer.level = 0 ∧ Laid false false (s.perform _).1.text.toList
      rw [hafter]
      refine ⟨hlevel, ?_⟩
      show Laid false false (s.text ++ (s.lead settings ++ _)).toList
      rw [String.toList_append, String.toList_append, String.toList_ofList]
      exact hlaid.append ((s.laid_lead settings).append (Model.laid_script hpath hscript))

/-- If some modules are written, so is the first of them, and then the others. -/
theorem emitAll_cons_ok {s : Session} {names : NameTable} {settings : Settings} {m : Module}
    {rest : List Module} {summaries : List Summary}
    (h : (s.emitAll names settings (m :: rest)).result = .ok summaries) :
    ∃ summary more, (s.emit names settings m).result = .ok summary ∧
      ((s.emit names settings m).session.emitAll names settings rest).result = .ok more := by
  rw [emitAll] at h
  cases hfirst : (s.emit names settings m).result with
  | error failure => simp [hfirst] at h
  | ok summary =>
      simp only [hfirst] at h
      cases hrest : ((s.emit names settings m).session.emitAll names settings rest).result with
      | error failure =>
          rw [hrest] at h
          cases h
      | ok more => exact ⟨summary, more, rfl, rfl⟩

/-- **Sessions.** Modules that are written leave the text laid out. -/
theorem emitAll_laid {s : Session} (hlimit : s.writer.sink.limit = none)
    (hlevel : s.writer.level = 0) (hlaid : Laid false false s.text.toList) {names : NameTable}
    {settings : Settings} (hpath : ∀ path ∈ settings.modulePath, OneLine path)
    {modules : List Module} {summaries : List Summary}
    (h : (s.emitAll names settings modules).result = .ok summaries) :
    (s.emitAll names settings modules).session.writer.level = 0 ∧
      Laid false false (s.emitAll names settings modules).session.text.toList := by
  induction modules generalizing s summaries with
  | nil => exact ⟨hlevel, hlaid⟩
  | cons m rest ih =>
      obtain ⟨summary, more, hfirst, hrest⟩ := emitAll_cons_ok h
      obtain ⟨hlevelNext, hlaidNext⟩ := emit_laid hlimit hlevel hlaid hpath hfirst
      have hlimitNext := (s.emit_limit names settings m).trans hlimit
      simp only [emitAll, hfirst]
      exact ih hlimitNext hlevelNext hlaidNext hrest

/-- The modules at the front of a design succeed if all of them do. -/
theorem emitAll_front_ok {s : Session} {names : NameTable} {settings : Settings}
    {before after : List Module} {summaries : List Summary}
    (h : (s.emitAll names settings (before ++ after)).result = .ok summaries) :
    ∃ front, (s.emitAll names settings before).result = .ok front := by
  induction before generalizing s summaries with
  | nil => exact ⟨[], rfl⟩
  | cons m rest ih =>
      obtain ⟨summary, more, hfirst, hrest⟩ := emitAll_cons_ok h
      obtain ⟨front, hfront⟩ := ih hrest
      refine ⟨summary :: front, ?_⟩
      simp only [emitAll, hfirst, hfront]
      rfl

end Session

/-- **A design that succeeds**, with a limit on its text or without. -/
theorem lowerDesign_laid {names : NameTable} {settings : Settings} {limit : Option Nat}
    (hpath : ∀ path ∈ settings.modulePath, OneLine path) {modules : List Module}
    {summaries : List Summary}
    (h : (lowerDesign names settings limit modules).result = .ok summaries) :
    (lowerDesign names settings limit modules).session.writer.level = 0 ∧
      Laid false false (lowerDesign names settings limit modules).session.text.toList := by
  have hstart : Laid false false (Session.start none).text.toList :=
    ⟨whole_nil, rfl, fun hblank => hblank⟩
  rw [lowerDesign_result] at h
  rw [lowerDesign_session]
  cases limit with
  | none => exact Session.emitAll_laid rfl rfl hstart hpath h
  | some limit =>
      have hcut := Session.emitAll_cutOff (s := .start none) rfl (Nat.zero_le limit) names settings
        modules
      have hresult : _ = Except.ok summaries := hcut.result.symm.trans h
      split at hresult
      · rename_i hfits
        obtain ⟨hlevel, hlaid⟩ := Session.emitAll_laid rfl rfl hstart hpath hresult
        have hsession : ((Session.start (some limit)).emitAll names settings modules).session = _ :=
          hcut.session hfits
        rw [hsession]
        exact ⟨hlevel, hlaid⟩
      · cases hresult

/-- **Generated text is well laid out.**  The level of indentation is zero after each module. -/
theorem lowerDesign_laidOut (names : NameTable) {settings : Settings} (limit : Option Nat)
    {modules : List Module} {summaries : List Summary}
    (hpath : ∀ path ∈ settings.modulePath, OneLine path)
    (h : (lowerDesign names settings limit modules).result = .ok summaries) :
    LaidOut (lowerDesign names settings limit modules).session.text ∧
      ∀ before after, modules = before ++ after →
        (lowerDesign names settings limit before).session.writer.level = 0 := by
  refine ⟨(lowerDesign_laid hpath h).2.laidOut, ?_⟩
  rintro before after rfl
  rw [lowerDesign_result] at h
  obtain ⟨front, hfront⟩ := Session.emitAll_front_ok h
  rw [← lowerDesign_result] at hfront
  exact (lowerDesign_laid hpath hfront).1

/-- Two modules with imports and a preamble of their own each, and braces in a documentation. -/
theorem lowerDesign_laidOut_nested :
    let names : NameTable := ⟨["top", "en", "q", "sub", "u", "d", "tick"]⟩
    let settings : Settings := .withModulePath "crate::models"
    let top : Module :=
      { Module.empty ⟨0⟩ with
        doc := some "\x7d, or\n\nif \x7b"
        ports := [.port ⟨1⟩ .input (.bits 1 false), .port ⟨2⟩ .output (.bits 1 false)]
        items :=
          [.subunit (.ofBindings ⟨4⟩ ⟨3⟩ [(⟨5⟩, ⟨2⟩)]),
            .process ((ProcessDecl.ofBody ⟨6⟩ [.name ⟨1⟩]
              [.ifElse [⟨.name ⟨1⟩, [.assign (.name ⟨2⟩) (.name ⟨1⟩)]⟩] none]).withOutputs [⟨2⟩])] }
    let sub : Module :=
      { Module.empty ⟨3⟩ with ports := [.port ⟨5⟩ .input (.bits 1 false)] }
    let summaries : List Summary :=
      [⟨"top", ["en", "q"], [], [⟨"tick", [⟨"en", .anyChange⟩], ["q"]⟩], ["u"]⟩,
        ⟨"sub", ["d"], [], [], []⟩]
    (∀ path ∈ settings.modulePath, OneLine path) ∧
      (lowerDesign names settings none [top, sub]).result = .ok summaries ∧
      LaidOut (lowerDesign names settings none [top, sub]).session.text ∧
      (lowerDesign names settings none [top]).session.writer.level = 0 := by
  intro names settings top sub summaries
  have hpath : ∀ path ∈ settings.modulePath, OneLine path := by decide
  have htop : (lowerModule names settings top).result = .ok (summaries.get ⟨0, by decide⟩) := by
    rw [lowerModule, (Session.emit_eq_run rfl settings (.start none)).1, Session.run_unlimited rfl]
    rfl
  have hsub : (lowerModule names settings sub).result = .ok (summaries.get ⟨1, by decide⟩) := by
    rw [lowerModule, (Session.emit_eq_run rfl settings (.start none)).1, Session.run_unlimited rfl]
    rfl
  have hresult : (lowerDesign names settings none [top, sub]).result = .ok summaries := by
    rw [lowerDesign_result_eq, Except.mapM_eq_ok_iff, List.map_cons, List.map_singleton, htop, hsub]
    rfl
  obtain ⟨hlaidOut, hlevel⟩ := lowerDesign_laidOut names none hpath hresult
  exact ⟨hpath, hresult, hlaidOut, hlevel [top] [sub] rfl⟩

end HdlSim
