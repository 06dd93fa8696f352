import HdlSim.Proofs.Nesting
import HdlSim.Proofs.Registration

/-!
# Registration of whole modules

The functions of the processes come behind what the simulator calls, and everything else comes
before it (`ModelLines`).  The lines can be told apart by how they begin, so a text with this layout
registers what the summary says (`registers_of_layout`).  The summary is the one of the module
(`Module.WellFormed.summary?_eq`), and both together are said by `emit_registers`.
-/

namespace HdlSim

open Text Script

/-! ### Functions of processes -/

/-- Lines in which the public functions begin with these heads, and which register nothing and begin
no block of functions. -/
structure FunctionLines (heads texts : List String) : Prop where
  heads : texts.filter (begins "pub fn ") = heads
  unmarked : Unmarked (unitMarks ++ ["impl "]) texts

private theorem functionLines_nil : FunctionLines [] [] := ⟨rfl, by simp [Unmarked]⟩

/-- The functions of two lists of lines. -/
theorem FunctionLines.append {hs gs ts us : List String} (hfront : FunctionLines hs ts)
    (hback : FunctionLines gs us) : FunctionLines (hs ++ gs) (ts ++ us) :=
  ⟨by rw [List.filter_append, hfront.heads, hback.heads],
    List.forall_mem_append.mpr ⟨hfront.unmarked, hback.unmarked⟩⟩

/-- Lines without a mark have none that begin with it. -/
theorem Unmarked.filter_eq_nil {marks texts : List String} (h : Unmarked marks texts)
    (mark : String) (hmark : mark ∈ marks) {word : String} (hword : begins mark word = true) :
    texts.filter (begins word) = [] := by
  refine List.filter_eq_nil_iff.mpr fun text htext hbegins => ?_
  have hmarked : begins mark text = true :=
    begins_iff.mpr ((begins_iff.mp hword).trans (begins_iff.mp hbegins))
  rw [h text htext mark hmark] at hmarked
  cases hmarked

/-- Lines without marks are without any of them. -/
theorem Unmarked.mono {marks marks' texts : List String} (h : Unmarked marks texts)
    (hsub : ∀ word ∈ marks', word ∈ marks) : Unmarked marks' texts :=
  fun text htext word hword => h text htext word (hsub word hword)

/-- Lines without any function. -/
theorem functionLines_of_unmarked {texts : List String} (h : Unmarked functionMarks texts) :
    FunctionLines [] texts :=
  ⟨h.filter_eq_nil "pub fn " (by decide) (by decide), h.mono (by decide)⟩

/-- A line does not begin with what differs from its beginning. -/
theorem Text.begins_eq_false_of_differ {front text : String}
    (hfront : front.toList <+: text.toList) {word : String} (hdiffer : differ word front = true) :
    begins word text = false := by
  rw [Bool.eq_false_iff]
  intro hbegins
  exact not_isPrefix_of_differ hfront hdiffer (begins_iff.mp hbegins)

/-- What is known of a line from the word with which it begins. -/
theorem Text.begins_eq_of_isPrefix {front text : String} (hfront : front.toList <+: text.toList)
    (word : String) (hknown : (differ word front || begins word front) = true) :
    begins word text = begins word front := by
  cases hword : begins word front with
  | true => exact begins_iff.mpr ((begins_iff.mp hword).trans hfront)
  | false =>
      rw [hword, Bool.or_false] at hknown
      exact begins_eq_false_of_differ hfront hknown

/-- Lines are unmarked if they all begin with a word that differs from the marks. -/
theorem unmarked_of_isPrefix {marks texts : List String} (front : String)
    (hdiffer : (marks.all fun word => differ word front) = true)
    (hfront : ∀ text ∈ texts, front.toList <+: text.toList) : Unmarked marks texts := by
  intro text htext word hword
  exact begins_eq_false_of_differ (hfront text htext) (List.all_eq_true.mp hdiffer word hword)

namespace ProcessSummary

/-- How the line of a function begins. -/
theorem functionLine_isPrefix (p : ProcessSummary) :
    "pub fn ".toList <+: p.functionLine.toList := by
  unfold functionLine
  simp only [String.toList_append, List.append_assoc, List.prefix_append]

/-- The line of a function is one of the lines of functions. -/
private theorem functionLines_head (p : ProcessSummary) :
    FunctionLines [p.functionLine] [p.functionLine] := by
  have hhead : begins "pub fn " p.functionLine = true :=
    begins_iff.mpr p.functionLine_isPrefix
  have hunmarked : Unmarked (unitMarks ++ ["impl "]) [p.functionLine] :=
    unmarked_of_isPrefix "pub fn " (by decide)
      (List.forall_mem_singleton.mpr p.functionLine_isPrefix)
  exact ⟨by simp [hhead], hunmarked⟩

private theorem prints_functionLine (p : ProcessSummary) {l : Line}
    (htext : l.text = p.functionLine) {rest : List Step} {texts : List String}
    (hrest : Prints rest texts) :
    Prints (.write (.enter l) :: rest) (p.functionLine :: texts) := by
  have hone : OneLine p.functionLine := by
    unfold functionLine
    simp +decide
  refine prints_text htext "pub fn " "(&mut self) \x7b" p.functionLine_isPrefix ?_ (by decide) hone
    hrest
  unfold functionLine
  simp only [String.toList_append, List.suffix_append]

end ProcessSummary

namespace Model

/-- A process is written as one function. -/
theorem processFunction_yields {m : Model} {p : ProcessDecl} {steps : List Step}
    (h : (m.processFunction p).Yields steps ()) :
    ∃ texts, Prints steps texts ∧
      FunctionLines [(p.summary m.context.names).functionLine] texts := by
  unfold processFunction at h
  obtain ⟨label, -, hafterName⟩ := Script.yields_lift_bind_iff.mp h
  obtain ⟨docSteps, _, hdoc, hafterDoc, rfl⟩ := Script.yields_then_iff.mp hafterName
  obtain ⟨host, hhost, henter⟩ := Script.yields_lift_bind_iff.mp hafterDoc
  obtain ⟨_, hafterHead, rfl⟩ := Script.yields_step_then_iff.mp henter
  obtain ⟨bodySteps, _, hbody, hleave, rfl⟩ := Script.yields_then_iff.mp hafterHead
  obtain ⟨_, hlog, rfl⟩ := Script.yields_step_then_iff.mp hleave
  obtain rfl := Script.yields_log_iff.mp hlog
  obtain ⟨docs, hprintsDocs, hdocs⟩ := prints_of_only (only_doc .doc p.doc) hdoc
  obtain ⟨body, hprintsBody, hbodyLines⟩ :=
    prints_of_only (Site.only_statements (m.site_place .process _) p.body) hbody
  have htext : (Line.processFn host).text = (p.summary m.context.names).functionLine := by
    unfold Line.text ProcessSummary.functionLine
    simp only [Context.host_ok hhost, hostText, ProcessDecl.summary]
  have hclose : Unmarked functionMarks ["\x7d"] := by decide
  refine ⟨docs ++ (p.summary m.context.names).functionLine :: (body ++ ["\x7d"]), ?_, ?_⟩
  · have hend : Prints [.write (.leave .close), .log (.loweredProcess label p.body.length)]
        ["\x7d"] := prints_close (prints_log prints_nil)
    exact hprintsDocs.append
      (ProcessSummary.prints_functionLine _ htext (hprintsBody.append hend))
  · have hrest : FunctionLines [] (body ++ ["\x7d"]) :=
      functionLines_of_unmarked (List.forall_mem_append.mpr ⟨hbodyLines, hclose⟩)
    exact (functionLines_of_unmarked hdocs).append
      ((ProcessSummary.functionLines_head _).append hrest)

/-- Functions with empty lines between them. -/
theorem processFunctions_yield {m : Model} {ps : List ProcessDecl} {steps : List Step}
    (h : (Script.forEach ps fun p => do
      Script.blank
      m.processFunction p).Yields steps ()) :
    ∃ texts, Prints steps texts ∧ FunctionLines
      (ps.map fun p => (p.summary m.context.names).functionLine) texts := by
  induction ps generalizing steps with
  | nil =>
      obtain ⟨rfl, -⟩ := Script.yields_pure_iff.mp h
      exact ⟨[], prints_nil, functionLines_nil⟩
  | cons p ps ih =>
      obtain ⟨front, back, hfront, hback, rfl⟩ := Script.yields_forEach_cons_iff.mp h
      obtain ⟨functionSteps, hfunction, rfl⟩ := Script.yields_step_then_iff.mp hfront
      obtain ⟨first, hprintsFirst, hfirst⟩ := processFunction_yields hfunction
      obtain ⟨others, hprintsOthers, hothers⟩ := ih hback
      have hblank : Unmarked functionMarks [""] := by decide
      exact ⟨("" :: first) ++ others, (prints_blank hprintsFirst).append hprintsOthers,
        ((functionLines_of_unmarked hblank).append hfirst).append hothers⟩

end Model

/-- The lines behind what the simulator calls: none if there are no processes, and otherwise one
block with their functions. -/
inductive ProcessLines : List ProcessSummary → List String → Prop
  | none : ProcessLines [] []
  | block {ps : List ProcessSummary} {header : String} {body : List String}
      (hunmarked : Unmarked unitMarks [header]) (hbegins : begins "impl " header = true)
      (hbody : FunctionLines (ps.map ProcessSummary.functionLine) body) :
      ProcessLines ps ("" :: header :: (body ++ ["\x7d"]))

namespace Model

/-- **Functions of processes.**  There is one for each process, in order. -/
theorem processes_yields {m : Model} {steps : List Step} (h : m.processes.Yields steps ()) :
    ∃ texts, Prints steps texts ∧
      ProcessLines (m.body.processes.map (ProcessDecl.summary m.context.names)) texts := by
  unfold processes at h
  cases hprocesses : m.body.processes with
  | nil =>
      rw [hprocesses] at h
      obtain ⟨rfl, -⟩ := Script.yields_pure_iff.mp h
      exact ⟨[], prints_nil, .none⟩
  | cons p ps =>
      rw [hprocesses] at h
      obtain ⟨_, henter, rfl⟩ := Script.yields_step_then_iff.mp h
      obtain ⟨_, hafterHeader, rfl⟩ := Script.yields_step_then_iff.mp henter
      obtain ⟨firstSteps, _, hfirst, hafterFirst, rfl⟩ := Script.yields_then_iff.mp hafterHeader
      obtain ⟨restSteps, _, hrest, hleave, rfl⟩ := Script.yields_then_iff.mp hafterFirst
      obtain rfl := Script.yields_leave_iff.mp hleave
      obtain ⟨first, hprintsFirst, hfirstLines⟩ := processFunction_yields hfirst
      obtain ⟨others, hprintsOthers, hothers⟩ := processFunctions_yield hrest
      have hunit : OneLine m.context.unit.text := m.context.oneLine_unit
      have htidy : (Line.implBlock m.context.unit).Tidy unitMarks :=
        Line.tidy_of_front "impl " rfl (by decide) (by simpa [Line.parts] using hunit)
      have hbegins : begins "impl " (Line.implBlock m.context.unit).code = true := by
        refine Line.begins_code "impl " " \x7b" rfl ?_ (by decide) (by decide)
        unfold Line.text
        simp only [String.toList_append, List.suffix_append]
      refine ⟨"" :: (Line.implBlock m.context.unit).code :: ((first ++ others) ++ ["\x7d"]), ?_, ?_⟩
      · rw [List.append_assoc]
        exact prints_blank (prints_enter htidy.oneLine
          (hprintsFirst.append (hprintsOthers.append (prints_close prints_nil))))
      · refine .block (List.forall_mem_singleton.mpr htidy.unmarked) hbegins ?_
        rw [List.map_map, List.map_cons]
        exact hfirstLines.append hothers

end Model

/-! ### From the layout to the registrations -/

/-- The words with which registrations begin. -/
def setters : List String :=
  ["self.model.set_interfaces(", "self.model.set_processes(", "self.model.set_units(",
    "self.model.set_sensitivity(", "self.model.set_outputs("]

section

variable {word : String}

/-- A registration of one kind begins with one of the words and with no other. -/
theorem begins_setter (hword : word ∈ setters) {setter text : String} (hsetter : setter ∈ setters)
    (hfront : setter.toList <+: text.toList) : begins word text = (word == setter) := by
  have hknown : ∀ word ∈ setters, ∀ setter ∈ setters,
      (differ word setter || begins word setter) = true ∧
        begins word setter = (word == setter) := by decide
  obtain ⟨hdecided, hvalue⟩ := hknown word hword setter hsetter
  rw [begins_eq_of_isPrefix hfront word hdecided, hvalue]

/-- The line for the interfaces begins with one setter only. -/
@[simp] theorem begins_interfacesLine (hword : word ∈ setters) (s : Summary) :
    begins word s.interfacesLine = (word == "self.model.set_interfaces(") :=
  begins_setter hword (by decide) s.interfacesLine_isPrefix

/-- The line for the processes begins with one setter only. -/
@[simp] theorem begins_processesLine (hword : word ∈ setters) (s : Summary) :
    begins word s.processesLine = (word == "self.model.set_processes(") :=
  begins_setter hword (by decide) s.processesLine_isPrefix

/-- The line for the units begins with one setter only. -/
@[simp] theorem begins_unitsLine (hword : word ∈ setters) (s : Summary) :
    begins word s.unitsLine = (word == "self.model.set_units(") :=
  begins_setter hword (by decide) s.unitsLine_isPrefix

/-- The line for the sensitivity begins with one setter only. -/
@[simp] theorem begins_sensitivityLine (hword : word ∈ setters) (p : ProcessSummary) :
    begins word p.sensitivityLine = (word == "self.model.set_sensitivity(") :=
  begins_setter hword (by decide) p.sensitivityLine_isPrefix

/-- The line for the outputs begins with one setter only. -/
@[simp] theorem begins_outputsLine (hword : word ∈ setters) (p : ProcessSummary) :
    begins word p.outputsLine = (word == "self.model.set_outputs(") :=
  begins_setter hword (by decide) p.outputsLine_isPrefix

end

/-- An arm begins with a number, and none of the words does. -/
theorem ProcessSummary.begins_armLine {word : String}
    (hword : (word.toList.head?.any fun c => !c.isDigit) = true) (p : ProcessSummary)
    (index : Nat) : begins word (p.armLine index) = false := by
  obtain ⟨c, cs, hnumber⟩ := List.exists_cons_of_ne_nil (natText_ne_nil index)
  have hdigit : c.isDigit = true := by
    refine isDigit_of_mem_natText (n := index) ?_
    rw [hnumber]
    exact List.mem_cons_self
  obtain ⟨rest, hline⟩ : ∃ rest, (p.armLine index).toList = c :: rest := by
    refine ⟨cs ++ (" => self." ++ hostText p.label ++ "(),").toList, ?_⟩
    unfold armLine
    simp [hnumber]
  cases hform : word.toList with
  | nil => simp [hform] at hword
  | cons d ds =>
      have hother : d.isDigit = false := by simpa [hform] using hword
      have hne : d ≠ c := by
        rintro rfl
        rw [hdigit] at hother
        cases hother
      simp [begins, hform, hline, List.isPrefixOf, hne]

/-- The calls of processes begin with numbers. -/
theorem unmarked_arms {marks : List String}
    (hmarks : (marks.all fun word => word.toList.head?.any fun c => !c.isDigit) = true)
    (ps : List ProcessSummary) : Unmarked marks (ps.mapIdx ProcessSummary.armLine) := by
  intro text htext word hword
  obtain ⟨index, hindex, rfl⟩ := List.mem_mapIdx.mp htext
  exact ProcessSummary.begins_armLine (List.all_eq_true.mp hmarks word hword) _ index

namespace UnitLines

variable {s : Summary}

private theorem registrations_isPrefix {text : String} (h : text ∈ registrations s) :
    "self.model.set_".toList <+: text.toList := by
  have hpart : ∀ setter ∈ setters, "self.model.set_".toList <+: setter.toList := by decide
  unfold registrations at h
  simp only [List.mem_cons, List.mem_flatMap, List.not_mem_nil, or_false] at h
  rcases h with rfl | rfl | rfl | ⟨p, -, rfl | rfl⟩
  · exact (hpart _ (by decide)).trans s.interfacesLine_isPrefix
  · exact (hpart _ (by decide)).trans s.processesLine_isPrefix
  · exact (hpart _ (by decide)).trans s.unitsLine_isPrefix
  · exact (hpart _ (by decide)).trans p.sensitivityLine_isPrefix
  · exact (hpart _ (by decide)).trans p.outputsLine_isPrefix

/-- No registration begins with another mark. -/
theorem registrations_unmarked :
    Unmarked ["fn run_process", "impl ", "pub fn "] (registrations s) :=
  unmarked_of_isPrefix "self.model.set_" (by decide) fun _ => registrations_isPrefix

/-- The function that calls processes has no setters. -/
theorem dispatcher_unmarked (u : UnitLines s) :
    Unmarked ["self.model.set_", "impl ", "pub fn "] u.dispatcher := by
  have hhead : Unmarked ["self.model.set_", "impl ", "pub fn "]
      [runProcessLine, "match index \x7b"] := by decide
  have harms : Unmarked ["self.model.set_", "impl ", "pub fn "]
      (s.processes.mapIdx ProcessSummary.armLine) := unmarked_arms (by decide) s.processes
  have hlast : Unmarked ["self.model.set_", "impl ", "pub fn "] [u.last] :=
    u.last_unmarked.mono (by decide)
  have hclose : Unmarked ["self.model.set_", "impl ", "pub fn "] ["\x7d", "\x7d", "\x7d"] := by
    decide
  exact List.forall_mem_append.mpr ⟨hhead, List.forall_mem_append.mpr
    ⟨harms, List.forall_mem_append.mpr ⟨hlast, hclose⟩⟩⟩

/-- The lines up to the function that runs processes. -/
theorem start_unmarked (u : UnitLines s) : Unmarked ["fn run_process"]
    (u.header :: (u.ties ++ (registrations s ++ u.starts))) := by
  have hheader : Unmarked ["fn run_process"] [u.header] := u.header_unmarked.mono (by decide)
  have hties : Unmarked ["fn run_process"] u.ties := u.ties_unmarked.mono (by decide)
  have hregistrations : Unmarked ["fn run_process"] (registrations s) :=
    registrations_unmarked.mono (by decide)
  have hstarts : Unmarked ["fn run_process"] u.starts := u.starts_unmarked.mono (by decide)
  exact List.forall_mem_append.mpr ⟨hheader, List.forall_mem_append.mpr
    ⟨hties, List.forall_mem_append.mpr ⟨hregistrations, hstarts⟩⟩⟩

/-- The lines behind the header: no block of functions begins there, and no public function. -/
theorem rest_unmarked (u : UnitLines s) : Unmarked ["impl ", "pub fn "]
    (u.ties ++ (registrations s ++ (u.starts ++ u.dispatcher))) := by
  have hties : Unmarked ["impl ", "pub fn "] u.ties := u.ties_unmarked.mono (by decide)
  have hregistrations : Unmarked ["impl ", "pub fn "] (registrations s) :=
    registrations_unmarked.mono (by decide)
  have hstarts : Unmarked ["impl ", "pub fn "] u.starts := u.starts_unmarked.mono (by decide)
  have hrun : Unmarked ["impl ", "pub fn "] u.dispatcher := u.dispatcher_unmarked.mono (by decide)
  exact List.forall_mem_append.mpr ⟨hties, List.forall_mem_append.mpr
    ⟨hregistrations, List.forall_mem_append.mpr ⟨hstarts, hrun⟩⟩⟩

/-- Nothing registers anything but the registrations. -/
theorem filter_texts (u : UnitLines s) {word : String} (hword : word ∈ setters) :
    u.texts.filter (begins word) = (registrations s).filter (begins word) := by
  have hsetter : ∀ word ∈ setters, begins "self.model.set_" word = true := by decide
  have hbegins := hsetter word hword
  have hheader := u.header_unmarked.filter_eq_nil "self.model.set_" (by decide) hbegins
  have hties := u.ties_unmarked.filter_eq_nil "self.model.set_" (by decide) hbegins
  have hstarts := u.starts_unmarked.filter_eq_nil "self.model.set_" (by decide) hbegins
  have hrun := u.dispatcher_unmarked.filter_eq_nil "self.model.set_" (by decide) hbegins
  have hsplit : u.texts =
      [u.header] ++ (u.ties ++ (registrations s ++ (u.starts ++ u.dispatcher))) := rfl
  rw [hsplit]
  simp only [List.filter_append, hheader, hties, hstarts, hrun, List.nil_append, List.append_nil]

end UnitLines

/-- What stands behind the last line with a mark. -/
theorem behindLast_append {word header : String} {back : List String} (front : List String)
    (hheader : begins word header = true) (hback : ∀ line ∈ back, begins word line = false) :
    behindLast word (front ++ header :: back) = back := by
  have hrest : ∀ line ∈ back.reverse, (!begins word line) = true := by
    intro line hline
    simp [hback line (List.mem_reverse.mp hline)]
  unfold behindLast
  rw [List.reverse_append, List.reverse_cons, List.append_assoc,
    List.takeWhile_append_of_pos hrest, List.singleton_append,
    List.takeWhile_cons_of_neg (by simp [hheader]), List.append_nil, List.reverse_reverse]

/-- The calls stand between the head of their function and the last line. -/
private theorem dispatchArms_append {front arms back : List String} {second last : String}
    (hfront : ∀ line ∈ front, line ≠ runProcessLine)
    (harms : ∀ line ∈ arms, begins "_ =>" line = false) (hlast : begins "_ =>" last = true) :
    dispatchArms (front ++ runProcessLine :: second :: (arms ++ last :: back)) = arms := by
  have hskipped : ∀ line ∈ front, (line != runProcessLine) = true := by
    intro line hline
    simp [hfront line hline]
  have hkept : ∀ line ∈ arms, (!begins "_ =>" line) = true := by
    intro line hline
    simp [harms line hline]
  unfold dispatchArms
  rw [List.dropWhile_append_of_pos hskipped, List.dropWhile_cons_of_neg (by simp),
    List.drop_succ_cons, List.drop_succ_cons, List.drop_zero, List.takeWhile_append_of_pos hkept,
    List.takeWhile_cons_of_neg (by simp [hlast]), List.append_nil]

/-- The lines for processes avoid the marks of units. -/
theorem ProcessLines.unmarked {ps : List ProcessSummary} {texts : List String}
    (h : ProcessLines ps texts) : Unmarked unitMarks texts := by
  cases h with
  | none =>
      intro text htext
      cases htext
  | block hunmarked _ hbody =>
      have hblank : Unmarked unitMarks [""] := by decide
      have hclose : Unmarked unitMarks ["\x7d"] := by decide
      have hbodyLines : Unmarked unitMarks _ := hbody.unmarked.mono (by decide)
      exact List.forall_mem_append.mpr ⟨hblank, List.forall_mem_append.mpr
        ⟨hunmarked, List.forall_mem_append.mpr ⟨hbodyLines, hclose⟩⟩⟩

section

variable {s : Summary} {front back : List String} (hfront : Unmarked unitMarks front)
  (u : UnitLines s) (hback : ProcessLines s.processes back)

include hfront hback

/-- The lines with a setter are among the registrations. -/
private theorem filter_layout {word : String} (hword : word ∈ setters) :
    (front ++ (u.texts ++ back)).filter (begins word) =
      (UnitLines.registrations s).filter (begins word) := by
  have hsetter : ∀ word ∈ setters, begins "self.model.set_" word = true := by decide
  have hbegins := hsetter word hword
  have hnoneBefore := hfront.filter_eq_nil "self.model.set_" (by decide) hbegins
  have hnoneBehind := hback.unmarked.filter_eq_nil "self.model.set_" (by decide) hbegins
  rw [List.filter_append, List.filter_append, u.filter_texts hword, hnoneBefore, hnoneBehind,
    List.nil_append, List.append_nil]

omit hback in
/-- The calls are those of the processes in order. -/
private theorem dispatchArms_layout :
    dispatchArms (front ++ (u.texts ++ back)) = s.processes.mapIdx ProcessSummary.armLine := by
  have hbefore : Unmarked ["fn run_process"]
      (front ++ u.header :: (u.ties ++ (UnitLines.registrations s ++ u.starts))) :=
    List.forall_mem_append.mpr ⟨hfront.mono (by decide), u.start_unmarked⟩
  have hdispatcher : begins "fn run_process" runProcessLine = true := by decide
  have hfirst : ∀ line ∈ front ++ u.header :: (u.ties ++ (UnitLines.registrations s ++ u.starts)),
      line ≠ runProcessLine := by
    rintro line hline rfl
    rw [hbefore _ hline _ List.mem_cons_self] at hdispatcher
    cases hdispatcher
  have harms : Unmarked ["_ =>"] (s.processes.mapIdx ProcessSummary.armLine) :=
    unmarked_arms (by decide) s.processes
  have hsplit : front ++ (u.texts ++ back) =
      (front ++ u.header :: (u.ties ++ (UnitLines.registrations s ++ u.starts))) ++
        runProcessLine :: "match index \x7b" :: (s.processes.mapIdx ProcessSummary.armLine ++
          u.last :: (["\x7d", "\x7d", "\x7d"] ++ back)) := by
    simp [UnitLines.texts, UnitLines.dispatcher]
  rw [hsplit]
  refine dispatchArms_append hfirst ?_ u.last_begins
  intro line hline
  exact harms line hline _ List.mem_cons_self

omit hfront in
/-- The last block of functions is the one of the processes, or there are none and it is the block
of what the simulator calls. -/
theorem functions_layout :
    (behindLast "impl " (front ++ (u.texts ++ back))).filter (begins "pub fn ") =
      s.processes.map ProcessSummary.functionLine := by
  generalize hprocesses : s.processes = ps at hback
  cases hback with
  | none =>
      have hrest := u.rest_unmarked
      unfold UnitLines.texts
      rw [List.append_nil, behindLast_append front u.header_begins
        fun line hline => hrest line hline "impl " (by decide)]
      exact hrest.filter_eq_nil "pub fn " (by decide) (by decide)
  | @block _ header body _ hbegins hbody =>
      have hclose : Unmarked ["impl ", "pub fn "] ["\x7d"] := by decide
      have hrest : Unmarked ["impl "] (body ++ ["\x7d"]) :=
        List.forall_mem_append.mpr ⟨hbody.unmarked.mono (by decide), hclose.mono (by decide)⟩
      have hsplit : front ++ (u.texts ++ "" :: header :: (body ++ ["\x7d"])) =
          (front ++ (u.texts ++ [""])) ++ header :: (body ++ ["\x7d"]) := by simp
      rw [hsplit, behindLast_append _ hbegins
        fun line hline => hrest line hline "impl " List.mem_cons_self]
      rw [List.filter_append, hbody.heads, hclose.filter_eq_nil "pub fn " (by decide) (by decide),
        List.append_nil]

/-- **Registrations from the layout.**  If the lines of what the simulator calls stand between lines
without marks and the functions of the processes, the lines register what the summary says. -/
theorem registers_of_layout : Registers s (front ++ (u.texts ++ back)) := by
  have hfilter : ∀ word ∈ setters, (front ++ (u.texts ++ back)).filter (begins word) =
      (UnitLines.registrations s).filter (begins word) :=
    fun _ hword => filter_layout hfront u hback hword
  refine
    { interfaces := ?_, processes := ?_, units := ?_, sensitivity := ?_, outputs := ?_,
      arms := dispatchArms_layout hfront u, functions := functions_layout u hback }
  · rw [hfilter _ (by decide)]
    simp +decide [UnitLines.registrations, List.filter_flatMap]
  · rw [hfilter _ (by decide)]
    simp +decide [UnitLines.registrations, List.filter_flatMap]
  · rw [hfilter _ (by decide)]
    simp +decide [UnitLines.registrations, List.filter_flatMap]
  · rw [hfilter _ (by decide)]
    simp +decide [UnitLines.registrations, List.filter_flatMap, List.map_eq_flatMap]
  · rw [hfilter _ (by decide)]
    simp +decide [UnitLines.registrations, List.filter_flatMap, List.map_eq_flatMap]

end

/-! ### The summary of a module -/

/-- A name that has a text has its text. -/
theorem NameTable.Resolves.resolve?_eq {names : NameTable} {n : Ident}
    (h : names.Resolves n) :
    names.resolve? n = some (names.textOf n) := by
  obtain ⟨text, htext⟩ := h
  simp [textOf, htext]

section

variable {names : NameTable} {scope : Scope}

/-- What is watched, in the words of the design and in those of the generated code. -/
theorem Expr.IsWatched.watch?_eq {e : Expr} (h : e.IsWatched names scope) :
    ∃ t, e.trigger? = some t ∧ e.watch? names = some ⟨names.textOf t.signal, t.edge⟩ := by
  cases h with
  | @name n hn => exact ⟨⟨n, .anyChange⟩, rfl, by simp [watch?, hn.resolves.resolve?_eq]⟩
  | @edge edge n hn =>
      cases edge with
      | rising => exact ⟨⟨n, .rising⟩, rfl, by simp [watch?, hn.resolves.resolve?_eq]⟩
      | falling => exact ⟨⟨n, .falling⟩, rfl, by simp [watch?, hn.resolves.resolve?_eq]⟩

private theorem Expr.watched_eq {sensitivity : List Expr}
    (h : ∀ e ∈ sensitivity, e.IsWatched names scope) :
    sensitivity.mapM (Expr.watch? names) = some ((sensitivity.filterMap Expr.trigger?).map fun t =>
      ⟨names.textOf t.signal, t.edge⟩) := by
  induction sensitivity with
  | nil => rfl
  | cons e rest ih =>
      obtain ⟨he, hrest⟩ := List.forall_mem_cons.mp h
      obtain ⟨t, htrigger, hwatch⟩ := he.watch?_eq
      simp [List.mapM_cons, hwatch, ih hrest, htrigger]

/-- The summary of a process is the one that its module gives. -/
theorem ProcessDecl.WellFormed.summary?_eq {p : ProcessDecl}
    (h : p.WellFormed names scope) :
    p.summary? names = some (p.summary names) := by
  obtain ⟨outputs, houtputs, hsignals⟩ := h.outputs
  have hdriven : outputs.mapM names.resolve? = some (outputs.map names.textOf) :=
    Option.mapM_eq_some_map fun n hn => (hsignals n hn).resolves.resolve?_eq
  unfold ProcessDecl.summary? ProcessDecl.summary
  simp [h.resolves.resolve?_eq, Expr.watched_eq h.sensitivity, houtputs, hdriven]

end

/-- The variables of a module are those of its sorted body. -/
theorem Module.variables_eq (m : Module) : m.variables = (Body.ofItems m.items).vars := by
  unfold Module.variables Body.ofItems
  congr 1
  funext item
  cases item with
  | varDecl d => simp [Item.varDecl?, Ty.isTypeOfTypes_iff]
  | _ => rfl

/-- The summary of a module is the summary of the model that is made of it. -/
theorem Module.WellFormed.summary?_eq {names : NameTable} {m : Module} (h : m.WellFormed names)
    {name : String} (hname : names.resolve? m.name = some name) :
    m.summary? names =
      some (Model.summary ⟨⟨names, name⟩, m.doc, m.ports, Body.ofItems m.items, m.scope⟩) := by
  obtain ⟨-, -, hvars, hunits, hprocesses⟩ := items_wellFormed_iff.mp h.items
  have hdecls : ∀ d ∈ m.ports ++ m.variables,
      names.resolve? d.name = some (names.textOf d.name) := by
    rw [m.variables_eq]
    refine List.forall_mem_append.mpr ⟨fun d hd => ?_, fun d hd => ?_⟩
    · exact (h.ports d hd).resolves.resolve?_eq
    · exact (hvars d hd).resolves.resolve?_eq
  have hfiltered : ∀ keep : Variable → Bool,
      ((m.ports ++ m.variables).filter keep).mapM (fun d => names.resolve? d.name) =
        some (((m.ports ++ m.variables).filter keep).map fun d => names.textOf d.name) :=
    fun keep => Option.mapM_eq_some_map fun d hd => hdecls d (List.mem_filter.mp hd).1
  have hsummaries : m.processes.mapM (ProcessDecl.summary? names) =
      some (m.processes.map (ProcessDecl.summary names)) :=
    Option.mapM_eq_some_map fun p hp => (hprocesses p hp).summary?_eq
  have hunitNames : m.instances.mapM (fun i => names.resolve? i.name) =
      some (m.instances.map fun i => names.textOf i.name) :=
    Option.mapM_eq_some_map fun i hi => (hunits i hi).resolves.resolve?_eq
  unfold Module.summary?
  simp only [hname, hfiltered, hsummaries, hunitNames]
  rw [m.variables_eq]
  rfl

/-! ### Whole modules -/

/-- The lines of a model: what the simulator calls stands between lines without marks and the
functions of the processes. -/
inductive ModelLines (s : Summary) : List String → Prop
  | mk {front back : List String} (hfront : Unmarked unitMarks front) (u : UnitLines s)
      (hback : ProcessLines s.processes back) : ModelLines s (front ++ (u.texts ++ back))

/-- The lines of a model register what its summary says. -/
theorem ModelLines.registers {s : Summary} {texts : List String} (h : ModelLines s texts) :
    Registers s texts := by
  obtain ⟨hfront, u, hback⟩ := h
  exact registers_of_layout hfront u hback

/-- Lines without marks may stand in front. -/
theorem ModelLines.behind {s : Summary} {front texts : List String} (h : ModelLines s texts)
    (hfront : Unmarked unitMarks front) : ModelLines s (front ++ texts) := by
  obtain ⟨hmiddle, u, hback⟩ := h
  rw [← List.append_assoc]
  exact .mk (List.forall_mem_append.mpr ⟨hfront, hmiddle⟩) u hback

section

variable {settings : Settings} (hpath : ∀ path ∈ settings.modulePath, OneLine path)

include hpath

/-- The lines of a model that is written. -/
private theorem Model.script_yields {m : Model} {steps : List Step} {s : Summary}
    (h : (m.script settings).Yields steps s) :
    s = m.summary ∧ ∃ texts, Prints steps texts ∧ ModelLines s texts := by
  unfold script at h
  obtain ⟨importSteps, _, himports, hafterImports, hsteps⟩ := Script.yields_then_iff.mp h
  obtain ⟨structSteps, _, hstructs, hafterStructs, hsteps₁⟩ :=
    Script.yields_then_iff.mp hafterImports
  obtain ⟨newSteps, _, hnew, hafterNew, hsteps₂⟩ := Script.yields_then_iff.mp hafterStructs
  obtain ⟨summary, unitSteps, _, hunit, hafterUnit, hsteps₃⟩ := Script.yields_bind_iff.mp hafterNew
  obtain ⟨processSteps, _, hprocesses, hpure, hsteps₄⟩ := Script.yields_then_iff.mp hafterUnit
  obtain ⟨hsteps₅, rfl⟩ := Script.yields_pure_iff.mp hpure
  obtain ⟨imports, hprintsImports, himportLines⟩ := prints_of_only (only_imports hpath) himports
  obtain ⟨structs, hprintsStructs, hstructLines⟩ :=
    prints_of_only (only_unregistered made_structures) hstructs
  obtain ⟨new, hprintsNew, hnewLines⟩ := prints_of_only (only_unregistered made_constructor) hnew
  obtain ⟨hsummary, u, hprintsUnit⟩ := simUnit_yields hunit
  obtain ⟨functions, hprintsFunctions, hfunctions⟩ := processes_yields hprocesses
  refine ⟨hsummary, (imports ++ (structs ++ new)) ++ (u.texts ++ functions), ?_, ?_⟩
  · rw [hsteps, hsteps₁, hsteps₂, hsteps₃, hsteps₄, hsteps₅, List.append_nil]
    have hprints := hprintsImports.append (hprintsStructs.append (hprintsNew.append
      (hprintsUnit.append hprintsFunctions)))
    simpa only [List.append_assoc] using hprints
  · refine .mk ?_ u ?_
    · exact List.forall_mem_append.mpr
        ⟨himportLines, List.forall_mem_append.mpr ⟨hstructLines, hnewLines⟩⟩
    · rw [hsummary]
      exact hfunctions

/-- The lines of a module begin with an empty line, the preamble or both, or with neither. -/
theorem Session.moduleScript_yields {session : Session} {c : Context} {m : Module}
    {steps : List Step} {s : Summary}
    (h : (session.moduleScript settings c m).Yields steps s) :
    s = Model.summary ⟨c, m.doc, m.ports, Body.ofItems m.items, m.scope⟩ ∧
      ∃ texts, Prints steps texts ∧ ModelLines s texts := by
  unfold moduleScript at h
  obtain ⟨model, modelSteps, _, hmodel, hafterModel, hsteps⟩ := Script.yields_bind_iff.mp h
  obtain ⟨blankSteps, _, hblank, hafterBlank, hsteps₁⟩ := Script.yields_then_iff.mp hafterModel
  obtain ⟨_, hafterMark, hsteps₂⟩ := Script.yields_step_then_iff.mp hafterBlank
  obtain ⟨preambleSteps, _, hpreamble, hscript, hsteps₃⟩ := Script.yields_then_iff.mp hafterMark
  obtain ⟨before, hprintsBefore, hbefore⟩ :=
    prints_of_only (only_of_made (Model.made_ofModule (fun _ => trivial) c m)) hmodel
  obtain ⟨separator, hprintsBlank, hblankLines⟩ :=
    prints_of_only (only_of_made (made_separator tidy_blank.unit session)) hblank
  obtain ⟨head, hprintsHead, hheadLines⟩ := prints_of_only (only_of_made
    (made_preambleScript tidy_preamble tidy_blank.unit trivial session settings)) hpreamble
  obtain ⟨hsummary, texts, hprints, hlines⟩ := Model.script_yields hpath hscript
  have hform := Model.ofModule_ok (congrArg Script.outcome hmodel)
  refine ⟨by rw [hsummary, hform], before ++ (separator ++ (head ++ texts)), ?_, ?_⟩
  · rw [hsteps, hsteps₁, hsteps₂, hsteps₃]
    exact hprintsBefore.append (hprintsBlank.append (hprintsHead.append hprints))
  · exact ((hlines.behind hheadLines).behind hblankLines).behind hbefore

end

end HdlSim
