import HdlSim.Proofs.Indentation

/-!
# Documentation does not affect code

A module without its documentation is written by the same script, but for the comment lines
(`Script.Documents`).  Comments are no part of the code, so the documentation of a module can change
neither the code of its model nor how the work on it ends (`emit_undocumented`).
-/

namespace HdlSim

open Script Text

/-! ### Modules without documentation -/

def Variable.undocumented (v : Variable) : Variable := { v with doc := none }

def EnumDecl.undocumented (d : EnumDecl) : EnumDecl := { d with doc := none }

def ArrayDecl.undocumented (d : ArrayDecl) : ArrayDecl := { d with doc := none }

def ProcessDecl.undocumented (p : ProcessDecl) : ProcessDecl := { p with doc := none }

def Instance.undocumented (i : Instance) : Instance := { i with doc := none }

def Item.undocumented : Item → Item
  | .enumType d => .enumType d.undocumented
  | .arrayType d => .arrayType d.undocumented
  | .varDecl d => .varDecl d.undocumented
  | .process p => .process p.undocumented
  | .subunit i => .subunit i.undocumented
  | .function f => .function f

/-- The module without any documentation. -/
def Module.undocumented (m : Module) : Module :=
  { m with
    doc := none
    ports := m.ports.map Variable.undocumented
    items := m.items.map Item.undocumented }

def TypeItem.undocumented : TypeItem → TypeItem
  | .enum d => .enum d.undocumented
  | .array d => .array d.undocumented
  | .synonym d => .synonym d.undocumented

def Body.undocumented (b : Body) : Body where
  types := b.types.map TypeItem.undocumented
  vars := b.vars.map Variable.undocumented
  processes := b.processes.map ProcessDecl.undocumented
  instances := b.instances.map Instance.undocumented

def Model.undocumented (m : Model) : Model :=
  { m with doc := none, ports := m.ports.map Variable.undocumented, body := m.body.undocumented }

@[simp] theorem TypeItem.name_undocumented (t : TypeItem) : t.undocumented.name = t.name := by
  cases t <;> rfl

@[simp] theorem TypeItem.members_undocumented (t : TypeItem) :
    t.undocumented.members = t.members := by
  cases t with
  | enum d => rfl
  | array d => rfl
  | synonym d =>
      obtain ⟨name, doc, type, value, isConst, direction⟩ := d
      cases value with
      | none => rfl
      | some e =>
          cases e with
          | type t => cases t <;> rfl
          | _ => rfl

/-- Items are sorted in the same way without documentation. -/
private theorem Body.ofItems_undocumented (items : List Item) :
    Body.ofItems (items.map Item.undocumented) = (Body.ofItems items).undocumented := by
  unfold ofItems undocumented
  congr 1
  · refine filterMap_map_comm (fun item => ?_) items
    cases item with
    | varDecl d =>
        show (if d.type.isTypeOfTypes then some (TypeItem.synonym d.undocumented) else none) =
          (if d.type.isTypeOfTypes then some (TypeItem.synonym d) else none).map _
        split <;> rfl
    | _ => rfl
  · refine filterMap_map_comm (fun item => ?_) items
    cases item with
    | varDecl d =>
        show (if d.type.isTypeOfTypes then none else some d.undocumented) =
          (if d.type.isTypeOfTypes then none else some d).map _
        split <;> rfl
    | _ => rfl
  · refine filterMap_map_comm (fun item => ?_) items
    cases item <;> rfl
  · refine filterMap_map_comm (fun item => ?_) items
    cases item <;> rfl

private theorem Body.sort_undocumented (c : Context) (items : List Item) :
    Body.sort c (items.map Item.undocumented) =
      Body.sort c items >>= fun body => pure body.undocumented := by
  have hfunctions : (items.map Item.undocumented).findSome? Item.function? =
      items.findSome? Item.function? := by
    rw [List.findSome?_map]
    refine congrArg (List.findSome? · items) (funext fun item => ?_)
    cases item <;> rfl
  unfold sort
  rw [hfunctions]
  cases items.findSome? Item.function? with
  | some f => cases hname : c.name f.name <;> simp [hname] <;> rfl
  | none => simp [ofItems_undocumented, undocumented]

private theorem Scope.build_undocumented (c : Context) (ports : List Variable) (body : Body) :
    Scope.build c (ports.map Variable.undocumented) body.undocumented =
      Scope.build c ports body := by
  have hvariables : ports.map Variable.undocumented ++ body.undocumented.vars =
      (ports ++ body.vars).map Variable.undocumented := List.map_append.symm
  have hfields : fieldNames (ports.map Variable.undocumented) body.undocumented =
      fieldNames ports body := by
    have hinstances : body.undocumented.instances.map Instance.name =
        body.instances.map Instance.name := List.map_map
    unfold fieldNames
    rw [hvariables, hinstances, List.map_map]
    rfl
  have hfunctions : functionNames body.undocumented = functionNames body := by
    simp [functionNames, Body.undocumented, Function.comp_def, ProcessDecl.undocumented]
  have hscope : ofBody (ports.map Variable.undocumented) body.undocumented =
      ofBody ports body := by
    have htypes : body.undocumented.types.flatMap typeEntries = body.types.flatMap typeEntries := by
      have hentries : ∀ t : TypeItem, typeEntries t.undocumented = typeEntries t := fun t => by
        simp [typeEntries]
      exact (List.flatMap_map _ _ _).trans (congrArg (List.flatMap · body.types) (funext hentries))
    unfold ofBody
    rw [hvariables, htypes, List.map_map]
    rfl
  unfold build
  rw [hfields, hfunctions, hscope]

/-- The model of a module without documentation. -/
theorem Model.ofModule_undocumented (c : Context) (m : Module) :
    Model.ofModule c m.undocumented =
      Model.ofModule c m >>= fun model => pure model.undocumented := by
  unfold ofModule
  simp [Module.undocumented, Body.sort_undocumented, Scope.build_undocumented, undocumented]

/-! ### Scripts with comments -/

/-- **The same steps, with comments.**  The first list has comment lines that the second has
not. -/
inductive Annotates : List Step → List Step → Prop
  | nil : Annotates [] []
  | step (step : Step) {front back : List Step} :
      Annotates front back → Annotates (step :: front) (step :: back)
  | comment (mark : CommentMark) {text : String} {front back : List Step} (htext : OneLine text) :
      Annotates front back → Annotates (.write (.line (.comment mark text)) :: front) back

/-- A script has its own steps without comments. -/
theorem Annotates.refl (steps : List Step) : Annotates steps steps := by
  induction steps with
  | nil => exact .nil
  | cons step rest ih => exact .step step ih

/-- Comments can be left out of two runs in a row. -/
theorem Annotates.append {a b a' b' : List Step} (hfront : Annotates a b)
    (hback : Annotates a' b') : Annotates (a ++ a') (b ++ b') := by
  induction hfront with
  | nil => exact hback
  | step step _ ih => exact .step step ih
  | comment mark htext _ ih => exact .comment mark htext ih

namespace Script

variable {α β γ : Type}

/-- The script does the same as the other and ends the same way, but writes comments as well. -/
structure Documents (s bare : Script α) : Prop where
  steps : Annotates s.steps bare.steps
  outcome : s.outcome = bare.outcome

/-- A script is its own script without comments. -/
theorem Documents.refl (s : Script α) : Documents s s := ⟨.refl _, rfl⟩

/-- Comments can be left out of two scripts in a row. -/
theorem documents_bind {s bare : Script α} {f g : α → Script β} (hs : Documents s bare)
    (hf : ∀ a, Documents (f a) (g a)) : Documents (s >>= f) (bare >>= g) := by
  obtain ⟨steps, outcome⟩ := s
  obtain ⟨bareSteps, bareOutcome⟩ := bare
  obtain ⟨hsteps, houtcome⟩ := hs
  obtain rfl : outcome = bareOutcome := houtcome
  cases outcome with
  | error failure => exact ⟨hsteps, rfl⟩
  | ok a => exact ⟨hsteps.append (hf a).steps, (hf a).outcome⟩

/-- What follows a script that is the same in both. -/
theorem documents_after (s : Script α) {f g : α → Script β} (hf : ∀ a, Documents (f a) (g a)) :
    Documents (s >>= f) (s >>= g) :=
  documents_bind (.refl s) hf

/-- Comments can be left out of scripts for the members of a list. -/
theorem documents_forEach {xs : List α} {f : α → Script Unit} {g : β → Script Unit}
    {u : α → β} (h : ∀ x, Documents (f x) (g (u x))) :
    Documents (forEach xs f) (forEach (xs.map u) g) := by
  induction xs with
  | nil => exact .refl _
  | cons x xs ih => exact documents_bind (h x) fun _ => ih

/-- Comments can be left out of the body of a block. -/
theorem documents_enclosed (l : Line) {body bare : Script α} (h : Documents body bare) :
    Documents (enclosed l body) (enclosed l bare) :=
  documents_after _ fun _ => documents_bind h fun _ => .refl _

/-- A documentation is nothing but comments. -/
theorem documents_doc (mark : CommentMark) (text : Option String) :
    Documents (Script.doc mark text) (Script.doc mark none) := by
  refine ⟨?_, outcome_doc mark text⟩
  cases text with
  | none => exact .nil
  | some text =>
      have hlines : ∀ texts : List String, (∀ t ∈ texts, OneLine t) →
          Annotates (lines (texts.map (Line.comment mark))).steps [] := by
        intro texts htexts
        induction texts with
        | nil => exact .nil
        | cons t texts ih =>
            obtain ⟨ht, hrest⟩ := List.forall_mem_cons.mp htexts
            exact .comment mark ht (ih hrest)
      exact hlines _ (oneLine_docTexts text)

end Script

open Script

/-! ### Models without documentation -/

namespace Model

variable (m : Model)

theorem decls_undocumented : m.undocumented.decls = m.decls.map Variable.undocumented :=
  List.map_append.symm

theorem constants_undocumented :
    m.undocumented.constants = m.constants.map Variable.undocumented := by
  unfold constants
  rw [decls_undocumented, List.filter_map]
  rfl

theorem signals_undocumented : m.undocumented.signals = m.signals.map Variable.undocumented := by
  unfold signals
  rw [decls_undocumented, List.filter_map]
  rfl

theorem instances_undocumented :
    m.undocumented.body.instances = m.body.instances.map Instance.undocumented := rfl

theorem processes_undocumented :
    m.undocumented.body.processes = m.body.processes.map ProcessDecl.undocumented := rfl

private theorem imports_undocumented (settings : Settings) :
    m.undocumented.imports settings = m.imports settings := by
  have hnames : m.undocumented.importNames = m.importNames := by
    unfold importNames
    rw [instances_undocumented, List.map_map]
    rfl
  unfold imports
  rw [hnames]

/-- The fields of the model have no documentation. -/
private theorem fieldLines_undocumented : m.undocumented.fieldLines = m.fieldLines := by
  unfold fieldLines
  rw [constants_undocumented, instances_undocumented, forEach_map, forEach_map]
  rfl

/-- The fields of the bundle have no documentation. -/
private theorem proxyLines_undocumented : m.undocumented.proxyLines = m.proxyLines := by
  unfold proxyLines
  rw [signals_undocumented, forEach_map]
  rfl

private theorem documents_structures : Documents m.structures m.undocumented.structures := by
  rw [structures_eq, structures_eq, fieldLines_undocumented, proxyLines_undocumented]
  exact documents_bind (documents_doc _ _) fun _ => .refl _

/-- The function for a type without its comments. -/
private theorem documents_typeFunction (t : TypeItem) :
    Documents (m.typeFunction t) (m.undocumented.typeFunction t.undocumented) := by
  have hvalue : ∀ s : Site, s.typeItemValue t.undocumented = s.typeItemValue t := by
    intro s
    cases t <;> rfl
  have hdoc : t.undocumented.doc = none := by cases t <;> rfl
  unfold typeFunction
  rw [TypeItem.name_undocumented, hdoc]
  simp only [hvalue]
  exact documents_after _ fun _ => documents_after _ fun _ =>
    documents_bind (documents_doc _ _) fun _ => .refl _

/-- A declaration without its comments. -/
theorem documents_declaration (kind : String) (d : Variable) :
    Documents (m.declaration kind d) (m.undocumented.declaration kind d.undocumented) := by
  unfold declaration
  exact documents_after _ fun _ => documents_after _ fun _ =>
    documents_bind (documents_doc _ _) fun _ => .refl _

private theorem documents_instanceLocal (i : Instance) :
    Documents (m.instanceLocal i) (m.undocumented.instanceLocal i.undocumented) := by
  unfold instanceLocal
  exact documents_bind (documents_doc _ _) fun _ => .refl _

/-- A heading stays, with something less for each member of a list. -/
theorem documents_headed {α : Type} {u : α → α} (heading : String) {xs : List α}
    {f g : α → Script Unit} (h : ∀ x, Documents (f x) (g (u x))) :
    Documents (headed heading xs f) (headed heading (xs.map u) g) := by
  cases xs with
  | nil => exact .refl _
  | cons x xs => exact documents_after _ fun _ => documents_forEach h

/-- The model as a value has no documentation. -/
private theorem selfValue_undocumented : m.undocumented.selfValue = m.selfValue := by
  have hio : m.undocumented.ioValue = m.ioValue := by
    unfold ioValue
    rw [signals_undocumented, List.isEmpty_map, forEach_map]
    rfl
  unfold selfValue
  rw [hio, constants_undocumented, instances_undocumented, forEach_map, forEach_map]
  rfl

/-- The body of the function that makes a model without its comments. -/
private theorem documents_newBody : Documents m.newBody m.undocumented.newBody := by
  unfold newBody
  rw [selfValue_undocumented]
  exact documents_after _ fun _ =>
    documents_bind (documents_headed _ (m.documents_declaration _)) fun _ =>
    documents_bind (documents_headed _ fun d => m.documents_declaration _ d) fun _ =>
    documents_bind (documents_headed _ m.documents_instanceLocal) fun _ => .refl _

/-- The functions that make a model without their comments. -/
private theorem documents_constructor : Documents m.constructor m.undocumented.constructor := by
  rw [constructor_eq, constructor_eq]
  refine documents_bind (documents_enclosed _ ?_) fun _ => .refl _
  exact documents_bind (documents_forEach m.documents_typeFunction) fun _ =>
    documents_enclosed _ m.documents_newBody

private theorem wiring_undocumented : m.undocumented.wiring = m.wiring := by
  unfold wiring
  rw [constants_undocumented, signals_undocumented, instances_undocumented, processes_undocumented]
  simp only [forEach_map, List.map_map, List.mapM_map]
  rfl

private theorem dispatch_undocumented (index : Nat) (ps : List ProcessDecl) :
    m.undocumented.dispatch index (ps.map ProcessDecl.undocumented) = m.dispatch index ps := by
  induction ps generalizing index with
  | nil => rfl
  | cons p ps ih =>
      rw [List.map_cons, dispatch, ih]
      rfl

/-- The functions that the simulator calls have no documentation. -/
private theorem simUnit_undocumented : m.undocumented.simUnit = m.simUnit := by
  have hdispatcher : m.undocumented.dispatcher = m.dispatcher := by
    unfold dispatcher
    rw [processes_undocumented, dispatch_undocumented]
    rfl
  rw [simUnit_eq, simUnit_eq, callbacks, wiring_undocumented, hdispatcher]
  rfl

/-- The function for a process without its comments. -/
theorem documents_processFunction (p : ProcessDecl) :
    Documents (m.processFunction p) (m.undocumented.processFunction p.undocumented) := by
  unfold processFunction
  exact documents_after _ fun _ => documents_bind (documents_doc _ _) fun _ => .refl _

/-- The functions for the processes without their comments. -/
private theorem documents_processes : Documents m.processes m.undocumented.processes := by
  unfold processes
  rw [processes_undocumented]
  cases m.body.processes with
  | nil => exact .refl _
  | cons p ps =>
      exact documents_after _ fun _ => documents_after _ fun _ =>
        documents_bind (m.documents_processFunction p) fun _ =>
        documents_bind (documents_forEach fun q =>
          documents_after _ fun _ => m.documents_processFunction q) fun _ => .refl _

/-- **Models.**  A model without its comments has the same script, but for the comments. -/
theorem documents_script (settings : Settings) :
    Documents (m.script settings) (m.undocumented.script settings) := by
  unfold script
  rw [imports_undocumented, simUnit_undocumented]
  exact documents_after _ fun _ => documents_bind m.documents_structures fun _ =>
    documents_bind m.documents_constructor fun _ => documents_after _ fun _ =>
    documents_bind m.documents_processes fun _ => .refl _

end Model

/-! ### Text without comments -/

/-- The lines of a text that are not comments. -/
def withoutComments (text : String) : List (List Char) :=
  (Text.lines text.toList).filter fun line => !isComment line

/-- A line is whole with its indentation. -/
theorem whole_indented (level : Nat) (text : String) : Whole (indented level text) := by
  unfold indented
  split
  · exact whole_newline []
  · exact whole_newline _

/-- A comment is written as a line that is dropped again. -/
theorem filter_comment (mark : CommentMark) {text : String} (htext : OneLine text) (level : Nat) :
    (Text.lines (indented level (Line.comment mark text).text)).filter
      (fun line => !isComment line) = [] := by
  have hshaped : Command.Shaped (.line (.comment mark text)) :=
    ⟨Line.oneLine_of_parts (by simpa [Command.written, Line.parts] using htext),
      fun _ => bracketed_comment mark text⟩
  have hline := hshaped.newline_not_mem level
  have hcomment : isComment (Command.lineAt (.line (.comment mark text)) level) = true :=
    (isComment_indent _ _).trans (isComment_comment mark text)
  have hchars : indented level (Line.comment mark text).text = _ := hshaped.chars_eq level
  rw [hchars, lines_line hline]
  simp [hcomment]

/-- **Comments make no difference to the code.** -/
theorem filter_lines_rendered {steps bare : List Step} (h : Annotates steps bare) (level : Nat) :
    (Text.lines (rendered level steps)).filter (fun line => !isComment line) =
      (Text.lines (rendered level bare)).filter (fun line => !isComment line) := by
  induction h generalizing level with
  | nil => rfl
  | step step _ ih =>
      cases step with
      | write command =>
          obtain ⟨k, hchars⟩ := command.chars_eq level
          rw [rendered, rendered, hchars, whole_indented, whole_indented, List.filter_append,
            List.filter_append, ih]
      | log event => exact ih level
      | mark m => exact ih level
  | @comment mark text front _ htext _ ih =>
      show (Text.lines
        (indented level (Line.comment mark text).text ++ rendered level front)).filter _ = _
      rw [whole_indented, List.filter_append, filter_comment mark htext, List.nil_append]
      exact ih level

namespace Session

/-- Comments are not reported. -/
theorem perform_annotates {steps bare : List Step} (h : Annotates steps bare) {s t : Session}
    (hs : s.writer.sink.limit = none) (ht : t.writer.sink.limit = none) :
    (s.perform steps).2.1 = (t.perform bare).2.1 := by
  induction h generalizing s t with
  | nil => rfl
  | step step _ ih =>
      cases step with
      | write command =>
          obtain ⟨w, hexec, hw⟩ := Writer.exec_unlimited hs (command.map Line.text)
          obtain ⟨v, hexec', hv⟩ := Writer.exec_unlimited ht (command.map Line.text)
          rw [perform, perform, hexec, hexec']
          exact ih hw hv
      | log event => exact congrArg (event :: ·) (ih hs ht)
      | mark m => exact ih (by rw [remember_writer]; exact hs) (by rw [remember_writer]; exact ht)
  | @comment mark text _ _ htext _ ih =>
      obtain ⟨w, hexec, hw⟩ :=
        Writer.exec_unlimited hs (Command.map Line.text (.line (.comment mark text)))
      rw [perform, hexec]
      exact ih hw ht

/-- The text that is written of a module where nothing is refused. -/
def addition (s : Session) (names : NameTable) (settings : Settings) (m : Module) : String :=
  match names.resolve? m.name with
  | none => ""
  | some name =>
    String.ofList (rendered s.writer.level (s.moduleScript settings ⟨names, name⟩ m).steps)

/-- Without a limit a module adds its text. -/
theorem emit_text {s : Session} (hlimit : s.writer.sink.limit = none) (names : NameTable)
    (settings : Settings) (m : Module) :
    (s.emit names settings m).session.text = s.text ++ s.addition names settings m := by
  unfold addition
  cases hname : names.resolve? m.name with
  | none =>
      unfold emit
      simp [hname]
  | some name =>
      rw [(emit_eq_run hname settings s).2]
      show (s.perform _).1.text = _
      rw [perform_eq_after (perform_unlimited hlimit _), after_text]

/-- The script for a module, and for the same module without documentation. -/
theorem documents_moduleScript (s : Session) (settings : Settings) (c : Context) (m : Module) :
    Documents (s.moduleScript settings c m) (s.moduleScript settings c m.undocumented) := by
  unfold moduleScript
  rw [Model.ofModule_undocumented]
  simp only [bind_assoc, pure_bind]
  exact documents_after _ fun model => documents_after _ fun _ => documents_after _ fun _ =>
    documents_after _ fun _ => model.documents_script settings

/-- Without comments, documentation makes no difference to the text that is added. -/
theorem addition_undocumented (s : Session) (names : NameTable) (settings : Settings)
    (m : Module) :
    withoutComments (s.addition names settings m) =
      withoutComments (s.addition names settings m.undocumented) := by
  unfold addition withoutComments
  show _ = List.filter _ (Text.lines (String.toList (match names.resolve? m.name with
    | none => ""
    | some name => _)))
  cases names.resolve? m.name with
  | none => rfl
  | some name =>
      simp only [String.toList_ofList]
      exact filter_lines_rendered (s.documents_moduleScript settings ⟨names, name⟩ m).steps _

/-- Documentation makes no difference to the outcome and the events. -/
theorem emit_undocumented {s : Session} (hlimit : s.writer.sink.limit = none)
    (names : NameTable) (settings : Settings) (m : Module) :
    (s.emit names settings m).result = (s.emit names settings m.undocumented).result ∧
      (s.emit names settings m).log = (s.emit names settings m.undocumented).log := by
  have hsame : m.undocumented.name = m.name := rfl
  unfold emit
  rw [hsame]
  cases names.resolve? m.name with
  | none => exact ⟨rfl, rfl⟩
  | some name =>
      have hscript := s.documents_moduleScript settings ⟨names, name⟩ m
      have hresult : (s.run (s.moduleScript settings ⟨names, name⟩ m)).result =
          (s.run (s.moduleScript settings ⟨names, name⟩ m.undocumented)).result := by
        rw [run_unlimited hlimit, run_unlimited hlimit, hscript.outcome]
      have hlog : (s.run (s.moduleScript settings ⟨names, name⟩ m)).log =
          (s.run (s.moduleScript settings ⟨names, name⟩ m.undocumented)).log :=
        perform_annotates hscript.steps hlimit hlimit
      simp only [hresult, hlog, and_self]

end Session

/-! ### The lines of a documentation -/

/-- **A line of a documentation**: the indentation, the marker and, if there is any text, a space
and the text, which has no line feed and no white space at its end. -/
def DocLine (level : Nat) (mark : CommentMark) (line : List Char) : Prop :=
  ∃ text : List Char, '\n' ∉ text ∧ (∀ c ∈ text.getLast?, isBlank c = false) ∧
    line = List.replicate (4 * level) ' ' ++ mark.text.toList ++
      if text = [] then [] else ' ' :: text

/-- What is trimmed does not end with a blank. -/
private theorem trimEnd_getLast? (cs : List Char) :
    ∀ c ∈ (trimEnd cs).getLast?, isBlank c = false := by
  intro c hc
  have hhead : (cs.reverse.dropWhile isBlank).head? = some c := by simpa [trimEnd] using hc
  have hkept := List.head?_dropWhile_not isBlank cs.reverse
  rw [hhead] at hkept
  exact hkept

/-- The line in which a text of a documentation stands. -/
def docLine (level : Nat) (mark : CommentMark) (text : String) : List Char :=
  List.replicate (4 * level) ' ' ++ mark.text.toList ++
    if text.toList = [] then [] else ' ' :: text.toList

private theorem docLine_of_mem_docTexts (level : Nat) (mark : CommentMark) {doc text : String}
    (h : text ∈ docTexts doc) : DocLine level mark (docLine level mark text) := by
  have hone := oneLine_docTexts doc text h
  obtain ⟨line, -, rfl⟩ := List.mem_map.mp h
  refine ⟨(String.ofList (trimEnd line)).toList, hone, ?_, rfl⟩
  rw [String.toList_ofList]
  exact trimEnd_getLast? line

private theorem indented_comment (level : Nat) (mark : CommentMark) (text : String) :
    indented level (Line.comment mark text).text = docLine level mark text ++ ['\n'] := by
  have hform : (Line.comment mark text).text.toList =
      mark.text.toList ++ if text.toList = [] then [] else ' ' :: text.toList := by
    show (commented mark.text text).toList = _
    unfold commented
    by_cases hempty : text = ""
    · simp [hempty]
    · simp [hempty]
  have hne := isEmpty_of_flush (bracketed_comment mark text).flush
  rw [indented, hne, docLine, hform, ← List.append_assoc]
  rfl

/-- A documentation is written line by line. -/
theorem Session.run_doc {s : Session} (hlimit : s.writer.sink.limit = none) (mark : CommentMark)
    (doc : Option String) : ∃ ls : List (List Char),
      (s.run (Script.doc mark doc)).session.text =
        s.text ++ String.ofList (ls.flatMap (· ++ ['\n'])) ∧
      ∀ line ∈ ls, DocLine s.writer.level mark line := by
  have htext : (s.run (Script.doc mark doc)).session.text =
      s.text ++ String.ofList (rendered s.writer.level (Script.doc mark doc).steps) := by
    show (s.perform _).1.text = _
    rw [perform_eq_after (perform_unlimited hlimit _), after_text]
  have hlines : ∀ texts : List String,
      rendered s.writer.level (Script.lines (texts.map (Line.comment mark))).steps =
        (texts.map (docLine s.writer.level mark)).flatMap (· ++ ['\n']) := by
    intro texts
    induction texts with
    | nil => rfl
    | cons text texts ih =>
        rw [List.map_cons, List.map_cons, List.flatMap_cons, ← indented_comment, ← ih]
        rfl
  cases doc with
  | none => exact ⟨[], htext, by simp⟩
  | some doc =>
      refine ⟨(docTexts doc).map (docLine s.writer.level mark), ?_, ?_⟩
      · rw [htext, ← hlines]
        rfl
      · exact List.forall_mem_map.mpr fun text h => docLine_of_mem_docTexts _ mark h

/-- **Documentation does not affect code.**  Where nothing is refused, modules that differ only in
documentation end the same way and are reported the same way, what is written of them, whole or in
part, has the same lines of code, and a documentation adds comment lines only. -/
theorem emit_of_undocumented_eq {s : Session} (hlimit : s.writer.sink.limit = none)
    (names : NameTable) (settings : Settings) {m other : Module}
    (h : m.undocumented = other.undocumented) :
    (s.emit names settings m).result = (s.emit names settings other).result ∧
      (s.emit names settings m).log = (s.emit names settings other).log ∧
      (∃ text otherText, (s.emit names settings m).session.text = s.text ++ text ∧
        (s.emit names settings other).session.text = s.text ++ otherText ∧
        withoutComments text = withoutComments otherText) ∧
      ∀ mark doc, ∃ ls : List (List Char),
        (s.run (Script.doc mark doc)).session.text =
          s.text ++ String.ofList (ls.flatMap (· ++ ['\n'])) ∧
        ∀ line ∈ ls, DocLine s.writer.level mark line := by
  obtain ⟨hresult, hlog⟩ := Session.emit_undocumented hlimit names settings m
  obtain ⟨hotherResult, hotherLog⟩ := Session.emit_undocumented hlimit names settings other
  rw [h] at hresult hlog
  refine ⟨hresult.trans hotherResult.symm, hlog.trans hotherLog.symm, ?_, Session.run_doc hlimit⟩
  refine ⟨_, _, Session.emit_text hlimit names settings m,
    Session.emit_text hlimit names settings other, ?_⟩
  rw [Session.addition_undocumented, h, ← Session.addition_undocumented]

/-- A module that is refused halfway, with and without documentation. -/
theorem emit_of_undocumented_eq_halfway :
    let names : NameTable := ⟨["top", "a", "k"]⟩
    let session : Session := .start none
    let bare : Module :=
      { Module.empty ⟨0⟩ with
        ports := [.port ⟨1⟩ .input (.bits 1 false)]
        items := [.varDecl ⟨⟨2⟩, none, .bits 1 false, none, true, none⟩] }
    let m : Module :=
      { bare with
        doc := some "first \x7b \n\n// second"
        ports := [(Variable.port ⟨1⟩ .input (.bits 1 false)).withDoc "\x7d \n"] }
    session.writer.sink.limit = none ∧ m.undocumented = bare.undocumented ∧
      (session.emit names .standard m).result = (session.emit names .standard bare).result ∧
      ∃ text otherText, (session.emit names .standard m).session.text = session.text ++ text ∧
        (session.emit names .standard bare).session.text = session.text ++ otherText ∧
        withoutComments text = withoutComments otherText := by
  intro names session bare m
  have hlimit : session.writer.sink.limit = none := rfl
  have hbare : m.undocumented = bare.undocumented := rfl
  obtain ⟨hresult, -, htext, -⟩ := emit_of_undocumented_eq hlimit names .standard hbare
  exact ⟨hlimit, hbare, hresult, htext⟩

end HdlSim
