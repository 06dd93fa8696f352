import HdlSim.Proofs.Layout
import HdlSim.Proofs.ModuleAcceptance

/-!
# Registration

What a model tells the simulator is what the module says, and it is the same wherever it is told.
The summary that is returned is read off the module (`Module.summary?`).  The lines that register
signals, processes and sub-units, the arms by which processes are run and the functions of the
processes follow this summary, each in its order (`Registers`).
-/

namespace HdlSim

open Text Script

/-! ### What a module says -/

section

variable (names : NameTable)

/-- What an entry of a sensitivity list watches: any change of a signal, or one of its edges. -/
def Expr.watch? : Expr → Option TriggerSummary
  | .name n => return ⟨← names.resolve? n, .anyChange⟩
  | .edge .rising (.name n) => return ⟨← names.resolve? n, .rising⟩
  | .edge .falling (.name n) => return ⟨← names.resolve? n, .falling⟩
  | _ => none

/-- A process by name, with what it watches and what it may drive, in the order of the source. -/
def ProcessDecl.summary? (p : ProcessDecl) : Option ProcessSummary := do
  let label ← names.resolve? p.label
  let sensitivity ← p.sensitivity.mapM (Expr.watch? names)
  let outputs ← p.outputs
  return ⟨label, sensitivity, ← outputs.mapM names.resolve?⟩

/-- The variables of the body; a declaration whose type is the type of types is not one of them. -/
def Module.variables (m : Module) : List Variable :=
  m.items.filterMap fun
    | .varDecl d => if d.type = .typeOfTypes then none else some d
    | _ => none

/-- **The summary of a module.**  Ports come before variables; everything else is in the order of
the source.  There is none if a name is unknown, if something else than a signal or an edge is
watched, or if it is not known what a process may drive. -/
def Module.summary? (m : Module) : Option Summary := do
  let decls := m.ports ++ m.variables
  let name ← names.resolve? m.name
  let interfaces ← (decls.filter fun d => !d.isConst).mapM fun d => names.resolve? d.name
  let constants ← (decls.filter Variable.isConst).mapM fun d => names.resolve? d.name
  let processes ← m.processes.mapM (ProcessDecl.summary? names)
  let units ← m.instances.mapM fun i => names.resolve? i.name
  return ⟨name, interfaces, constants, processes, units⟩

end

/-! ### What the lines of a model say -/

/-- The name of a signal, process or unit as it stands in the lines. -/
def hostText (name : String) : String := (HostName.escape name).text

/-- A line that registers a list: a front, the members and the end of the call. -/
def listLine (front : String) (members : List String) : String :=
  front ++ commaList members ++ "]);"

/-- A watched signal as it is registered. -/
def TriggerSummary.text (t : TriggerSummary) : String :=
  "Trigger::" ++ t.edge.maker ++ "(&self.io." ++ hostText t.signal ++ ")"

namespace ProcessSummary

/-- The line that registers what a process watches. -/
def sensitivityLine (p : ProcessSummary) : String :=
  listLine ("self.model.set_sensitivity(" ++ quote p.label ++ ", vec![")
    (p.sensitivity.map TriggerSummary.text)

/-- The line that registers what a process may drive. -/
def outputsLine (p : ProcessSummary) : String :=
  listLine ("self.model.set_outputs(" ++ quote p.label ++ ", vec![")
    (p.outputs.map fun n => "self.io." ++ hostText n ++ ".clone()")

/-- The line with which the function of a process begins. -/
def functionLine (p : ProcessSummary) : String :=
  "pub fn " ++ hostText p.label ++ "(&mut self) \x7b"

/-- The arm that runs the process with this number. -/
def armLine (index : Nat) (p : ProcessSummary) : String :=
  natText index ++ " => self." ++ hostText p.label ++ "(),"

end ProcessSummary

namespace Summary

/-- The line that registers the signals. -/
def interfacesLine (s : Summary) : String :=
  listLine "self.model.set_interfaces(vec!["
    (s.interfaces.map fun n => "self.io." ++ hostText n ++ ".clone()")

/-- The line that registers the processes. -/
def processesLine (s : Summary) : String :=
  listLine "self.model.set_processes(&[" (s.processes.map fun p => quote p.label)

/-- The line that registers the sub-units. -/
def unitsLine (s : Summary) : String :=
  listLine "self.model.set_units(vec!["
    (s.units.map fun n => "self." ++ hostText n ++ ".model.clone()")

end Summary

/-- The line with which the function that runs processes begins. -/
def runProcessLine : String := "fn run_process(&mut self, index: usize) \x7b"

/-- The arms of the function that runs processes: what stands behind its first two lines, up to the
arm for all other numbers. -/
def dispatchArms (lines : List String) : List String :=
  ((lines.dropWhile (· != runProcessLine)).drop 2).takeWhile fun line => !begins "_ =>" line

/-- The lines behind the last one that begins with a word. -/
def behindLast (word : String) (lines : List String) : List String :=
  (lines.reverse.takeWhile fun line => !begins word line).reverse

/-- **Registration.**  The lines of a model tell the simulator what the summary says: signals,
processes and sub-units are registered once, what each process watches and may drive is registered
once for each process, and the list of processes, the arms that run them and their functions in the
last block of the model have the same order. -/
structure Registers (summary : Summary) (lines : List String) : Prop where
  interfaces : lines.filter (begins "self.model.set_interfaces(") = [summary.interfacesLine]
  processes : lines.filter (begins "self.model.set_processes(") = [summary.processesLine]
  units : lines.filter (begins "self.model.set_units(") = [summary.unitsLine]
  sensitivity : lines.filter (begins "self.model.set_sensitivity(") =
    summary.processes.map ProcessSummary.sensitivityLine
  outputs : lines.filter (begins "self.model.set_outputs(") =
    summary.processes.map ProcessSummary.outputsLine
  arms : dispatchArms lines = summary.processes.mapIdx ProcessSummary.armLine
  functions : (behindLast "impl " lines).filter (begins "pub fn ") =
    summary.processes.map ProcessSummary.functionLine

/-! ### Names and lines -/

/-- The text of a name; a number that the table did not issue has none. -/
def NameTable.textOf (names : NameTable) (n : Ident) : String := (names.resolve? n).getD ""

/-- The summary of a process, if all its names are known. -/
def ProcessDecl.summary (names : NameTable) (p : ProcessDecl) : ProcessSummary where
  label := names.textOf p.label
  sensitivity := (p.sensitivity.filterMap Expr.trigger?).map fun t =>
    ⟨names.textOf t.signal, t.edge⟩
  outputs := (p.outputs.getD []).map names.textOf

/-- The text of a name. -/
theorem Context.name_ok {c : Context} {n : Ident} {text : String} (h : c.name n = .ok text) :
    text = c.names.textOf n := by
  simp [NameTable.textOf, Context.name_eq_ok_iff.mp h]

/-- The identifier of a name. -/
theorem Context.host_ok {c : Context} {n : Ident} {host : HostName} (h : c.host n = .ok host) :
    host = HostName.escape (c.names.textOf n) := by
  obtain ⟨text, htext, rfl⟩ := Context.host_eq_ok_iff.mp h
  simp [NameTable.textOf, htext]

/-- The texts of some names. -/
theorem Context.texts_ok {c : Context} {ns : List Ident} {texts : List String}
    (h : c.texts ns = .ok texts) : texts = ns.map c.names.textOf := by
  have hmap := Except.map_of_mapM (g := id) h fun _ _ hn => Context.name_ok hn
  simpa using hmap

/-- The identifiers of some names. -/
theorem Context.hosts_ok {c : Context} {ns : List Ident} {hosts : List HostName}
    (h : c.hosts ns = .ok hosts) : hosts = ns.map fun n => HostName.escape (c.names.textOf n) := by
  have hmap := Except.map_of_mapM (g := id) h fun _ _ hn => Context.host_ok hn
  simpa using hmap

/-- The steps write these lines, and each of them is a single line. -/
def Prints (steps : List Step) (texts : List String) : Prop :=
  (∀ l ∈ writtenLines steps, OneLine l.text) ∧ (writtenLines steps).map Line.code = texts

/-- No steps print nothing. -/
theorem prints_nil : Prints [] [] := ⟨by simp, rfl⟩

/-- The lines of two runs in a row. -/
theorem Prints.append {front back : List Step} {ts us : List String} (hfront : Prints front ts)
    (hback : Prints back us) : Prints (front ++ back) (ts ++ us) := by
  constructor
  · rw [writtenLines_append]
    exact List.forall_mem_append.mpr ⟨hfront.1, hback.1⟩
  · rw [writtenLines_append, List.map_append, hfront.2, hback.2]

/-- A command prints one line. -/
theorem prints_write {command : Command Line} {text : String} {rest : List Step}
    {texts : List String} (hone : OneLine command.written.text)
    (hcode : command.written.code = text) (hrest : Prints rest texts) :
    Prints (.write command :: rest) (text :: texts) :=
  ⟨List.forall_mem_cons.mpr ⟨hone, hrest.1⟩, by
    rw [writtenLines_write, List.map_cons, hcode, hrest.2]⟩

/-- A line without white space at its ends is printed as it is. -/
theorem prints_text {command : Command Line} {text : String} {rest : List Step}
    {texts : List String} (htext : command.written.text = text) (front back : String)
    (hfront : front.toList <+: text.toList) (hback : back.toList <:+ text.toList)
    (hflush : (isFlush front && isFlushEnd back) = true) (hone : OneLine text)
    (hrest : Prints rest texts) : Prints (.write command :: rest) (text :: texts) :=
  prints_write (htext ▸ hone) (Line.code_eq htext front back hfront hback hflush) hrest

/-- Events are not printed. -/
theorem prints_log {event : Event} {rest : List Step} {texts : List String}
    (hrest : Prints rest texts) : Prints (.log event :: rest) texts := hrest

/-- Text without any of the marks. -/
def Unmarked (marks texts : List String) : Prop :=
  ∀ text ∈ texts, ∀ word ∈ marks, begins word text = false

instance (marks texts : List String) : Decidable (Unmarked marks texts) :=
  inferInstanceAs (Decidable (∀ text ∈ texts, ∀ word ∈ marks, begins word text = false))

/-- A script that writes tidy lines only. -/
theorem prints_of_only {α : Type} {marks : List String} {s : Script α} {steps : List Step} {a : α}
    (honly : Only (Line.Tidy marks) s) (h : s.Yields steps a) :
    ∃ texts, Prints steps texts ∧ Unmarked marks texts := by
  have htidy : ∀ l ∈ writtenLines steps, l.Tidy marks := by
    rw [show steps = s.steps from (congrArg Script.steps h).symm]
    exact honly
  refine ⟨(writtenLines steps).map Line.code, ⟨fun l hl => (htidy l hl).oneLine, rfl⟩, ?_⟩
  exact List.forall_mem_map.mpr fun l hl => (htidy l hl).unmarked

/-! ### Registered processes -/

/-- The identifier for a name is one line. -/
@[simp] theorem oneLine_hostText (name : String) : OneLine (hostText name) :=
  HostName.oneLine_escape name

private theorem TriggerSummary.oneLine_text (t : TriggerSummary) : OneLine t.text := by
  unfold TriggerSummary.text
  cases t.edge <;> simp +decide [TriggerEdge.maker]

/-- Names with fixed texts around them are one line each. -/
theorem oneLine_copies (ns : List String) {front back : String} (hfront : OneLine front)
    (hback : OneLine back) : ∀ text ∈ ns.map (fun n => front ++ hostText n ++ back), OneLine text :=
  List.forall_mem_map.mpr fun n _ => by simp [hfront, hback]

/-- The line of a list begins as its front does. -/
theorem listLine_isPrefix {word front : String} (h : word.toList <+: front.toList)
    (members : List String) : word.toList <+: (listLine front members).toList := by
  have hfront : front.toList <+: (listLine front members).toList := by
    unfold listLine
    simp only [String.toList_append, List.append_assoc, List.prefix_append]
  exact h.trans hfront

/-- A line that registers a list is printed as it is. -/
theorem prints_listLine {l : Line} {front : String} {members : List String} {rest : List Step}
    {texts : List String} (htext : l.text = listLine front members)
    (hfront : "self.model.set_".toList <+: front.toList) (hone : OneLine front)
    (hmembers : ∀ text ∈ members, OneLine text) (hrest : Prints rest texts) :
    Prints (.write (.line l) :: rest) (listLine front members :: texts) := by
  have hback : "]);".toList <:+ (listLine front members).toList := by
    unfold listLine
    simp only [String.toList_append, List.suffix_append]
  have honeLine : OneLine (listLine front members) := by
    unfold listLine
    simp +decide [hone, oneLine_commaList hmembers]
  exact prints_text htext "self.model.set_" "]);" (listLine_isPrefix hfront members) hback
    (by decide) honeLine hrest

/-- The triggers of a sensitivity list are those of its members. -/
theorem Site.triggers_ok {s : Site} {sensitivity : List Expr} {ts : List Trigger}
    (h : s.triggers sensitivity = .ok ts) : sensitivity.filterMap Expr.trigger? = ts := by
  calc sensitivity.filterMap Expr.trigger?
      = (sensitivity.map Expr.trigger?).filterMap id := by rw [List.filterMap_map]; rfl
    _ = (ts.map some).filterMap id := by rw [Site.triggers_eq_ok_iff.mp h]
    _ = ts := by rw [List.filterMap_map]; exact List.filterMap_some

/-- The text of a field of the bundle. -/
theorem proxies_field_text (n : HostName) :
    (HostExpr.field .proxies n).text = "self.io." ++ n.text := by
  unfold HostExpr.proxies HostExpr.text HostExpr.text HostExpr.text
  apply String.toList_inj.mp
  simp [HostName.text, HostName.plain]

/-- The text of a proxy inside of a process. -/
theorem Site.proxyOf_text {s : Site} (hplace : s.place = .process) {n : Ident}
    {proxy : HostExpr} (h : s.proxyOf n = .ok proxy) :
    proxy.text = "self.io." ++ hostText (s.context.names.textOf n) := by
  obtain ⟨text, hname, rfl⟩ := proxyOf_process hplace h
  rw [proxies_field_text]
  simp [hostText, NameTable.textOf, hname]

private theorem Site.hostTrigger_text {s : Site} (hplace : s.place = .process) {t : Trigger}
    {host : HostTrigger} (h : s.hostTrigger t = .ok host) :
    host.text = TriggerSummary.text ⟨s.context.names.textOf t.signal, t.edge⟩ := by
  obtain ⟨proxy, hproxy, h⟩ := Except.bind_eq_ok_iff.mp h
  obtain rfl := Except.pure_eq_ok_iff.mp h
  unfold HostTrigger.text TriggerSummary.text
  rw [proxyOf_text hplace hproxy]
  apply String.toList_inj.mp
  simp

/-- The text of a copy of a proxy or sub-unit. -/
theorem clone_text (e : HostExpr) : (HostExpr.method e "clone" []).text = e.text ++ ".clone()" := by
  rw [HostExpr.text, HostExpr.texts]
  apply String.toList_inj.mp
  simp [commaList, joinWith]

private theorem Site.hostTriggers_text {s : Site} (hplace : s.place = .process) {ts : List Trigger}
    {hosts : List HostTrigger} (h : s.hostTriggers ts = .ok hosts) :
    hosts.map HostTrigger.text =
      ts.map fun t => TriggerSummary.text ⟨s.context.names.textOf t.signal, t.edge⟩ :=
  Except.map_of_mapM h fun _ _ ht => hostTrigger_text hplace ht

private theorem Site.proxiesOf_text {s : Site} (hplace : s.place = .process) {ns : List Ident}
    {proxies : List HostExpr} (h : s.proxiesOf ns = .ok proxies) :
    HostExpr.texts (proxies.map fun proxy => .method proxy "clone" []) =
      ns.map fun n => "self.io." ++ hostText (s.context.names.textOf n) ++ ".clone()" := by
  rw [HostExpr.texts_eq_map, List.map_map]
  refine Except.map_of_mapM h fun n proxy hproxy => ?_
  rw [Function.comp_apply, clone_text, proxyOf_text hplace hproxy]

namespace ProcessSummary

/-- The front of a line about a process: a word, the label and the beginning of a list. -/
theorem front_isPrefix (p : ProcessSummary) (word : String) :
    word.toList <+: (word ++ quote p.label ++ ", vec![").toList := by
  simp only [String.toList_append, List.append_assoc, List.prefix_append]

/-- How the line for the sensitivity of a process begins. -/
theorem sensitivityLine_isPrefix (p : ProcessSummary) :
    "self.model.set_sensitivity(".toList <+: p.sensitivityLine.toList :=
  listLine_isPrefix (p.front_isPrefix _) _

/-- How the line for the outputs of a process begins. -/
theorem outputsLine_isPrefix (p : ProcessSummary) :
    "self.model.set_outputs(".toList <+: p.outputsLine.toList :=
  listLine_isPrefix (p.front_isPrefix _) _

/-- The two lines of a process are printed. -/
theorem prints_lines (p : ProcessSummary) {first second : Line}
    (hfirst : first.text = p.sensitivityLine) (hsecond : second.text = p.outputsLine) :
    Prints [.write (.line first), .write (.line second)] [p.sensitivityLine, p.outputsLine] := by
  have hone : ∀ word, OneLine word → OneLine (word ++ quote p.label ++ ", vec![") := by
    intro word hword
    simp +decide [hword]
  have hwatched : ∀ text ∈ p.sensitivity.map TriggerSummary.text, OneLine text :=
    List.forall_mem_map.mpr fun t _ => t.oneLine_text
  have houtputs := prints_listLine hsecond
    (List.IsPrefix.trans (by decide) (p.front_isPrefix "self.model.set_outputs("))
    (hone _ (by decide)) (oneLine_copies p.outputs (by decide) (by decide)) prints_nil
  exact prints_listLine hfirst
    (List.IsPrefix.trans (by decide) (p.front_isPrefix "self.model.set_sensitivity("))
    (hone _ (by decide)) hwatched houtputs

end ProcessSummary

namespace Model

/-- **Registered processes.**  A process is registered by two lines, and its summary is read off
the design. -/
theorem registration_yields {m : Model} {p : ProcessDecl} {steps : List Step} {ps : ProcessSummary}
    (h : (m.registration p).Yields steps ps) :
    ps = p.summary m.context.names ∧ Prints steps [ps.sensitivityLine, ps.outputsLine] := by
  unfold registration at h
  obtain ⟨label, hlabel, htriggers⟩ := Script.yields_lift_bind_iff.mp h
  obtain ⟨ts, hts, hhosts⟩ := Script.yields_lift_bind_iff.mp htriggers
  obtain ⟨hosts, hhosts, houtputs⟩ := Script.yields_lift_bind_iff.mp hhosts
  cases hdriven : p.outputs with
  | none => simp [hdriven] at houtputs
  | some outputs =>
      rw [hdriven] at houtputs
      obtain ⟨proxies, hproxies, hfirst⟩ := Script.yields_lift_bind_iff.mp houtputs
      obtain ⟨_, hsecond, hsteps⟩ := Script.yields_step_then_iff.mp hfirst
      obtain ⟨_, hwatched, hsteps₁⟩ := Script.yields_step_then_iff.mp hsecond
      obtain ⟨watched, hwatched, hrest⟩ := Script.yields_lift_bind_iff.mp hwatched
      obtain ⟨driven, hdrivenTexts, hlast⟩ := Script.yields_lift_bind_iff.mp hrest
      obtain ⟨hsteps₂, hps⟩ := Script.yields_pure_iff.mp hlast
      have hsummary : ps = p.summary m.context.names := by
        rw [← hps, Context.texts_ok hwatched, Context.texts_ok hdrivenTexts, Context.name_ok hlabel]
        simp [ProcessDecl.summary, hdriven, Site.triggers_ok hts, List.zipWith_map,
          List.zipWith_self]
      have hhostTexts : hosts.map HostTrigger.text = ps.sensitivity.map TriggerSummary.text := by
        rw [hsummary, ProcessDecl.summary, Site.triggers_ok hts, List.map_map]
        exact Site.hostTriggers_text (m.site_place .process _) hhosts
      have hproxyTexts : HostExpr.texts (proxies.map fun proxy => .method proxy "clone" []) =
          ps.outputs.map fun n => "self.io." ++ hostText n ++ ".clone()" := by
        rw [hsummary, ProcessDecl.summary, hdriven, Option.getD_some, List.map_map]
        exact Site.proxiesOf_text (m.site_place .process _) hproxies
      have hname : label = ps.label := by
        rw [hsummary, Context.name_ok hlabel]
        rfl
      refine ⟨hsummary, ?_⟩
      rw [hsteps, hsteps₁, hsteps₂]
      refine ps.prints_lines ?_ ?_
      · unfold Line.text ProcessSummary.sensitivityLine listLine
        simp only [hname, hhostTexts]
      · unfold Line.text ProcessSummary.outputsLine listLine
        simp only [hname, hproxyTexts]

/-- All processes are registered in order. -/
theorem registrations_yield {m : Model} {ps : List ProcessDecl} {steps : List Step}
    {summaries : List ProcessSummary} (h : (ps.mapM m.registration).Yields steps summaries) :
    summaries = ps.map (ProcessDecl.summary m.context.names) ∧
      Prints steps (summaries.flatMap fun p => [p.sensitivityLine, p.outputsLine]) := by
  induction ps generalizing steps summaries with
  | nil =>
      obtain ⟨rfl, rfl⟩ := Script.yields_pure_iff.mp h
      exact ⟨rfl, prints_nil⟩
  | cons p ps ih =>
      rw [List.mapM_cons] at h
      obtain ⟨first, front, back, hfirst, hrest, rfl⟩ := Script.yields_bind_iff.mp h
      obtain ⟨others, middle, last, hothers, hlast, rfl⟩ := Script.yields_bind_iff.mp hrest
      obtain ⟨rfl, rfl⟩ := Script.yields_pure_iff.mp hlast
      obtain ⟨hsummary, hprints⟩ := registration_yields hfirst
      obtain ⟨hsummaries, hprintss⟩ := ih hothers
      refine ⟨by rw [List.map_cons, ← hsummary, ← hsummaries], ?_⟩
      rw [List.append_nil, List.flatMap_cons]
      exact hprints.append hprintss

/-! ### The function that registers everything -/

/-- Tying sub-units to signals is no registration. -/
theorem only_ties (m : Model) :
    Only (Line.Tidy functionMarks) (forEach m.body.instances m.connections) := by
  refine only_of_made (made_forEach fun i hi => ?_)
  unfold connections
  refine made_lift fun name _ => made_lift fun unit hunit => made_forEach fun b _ => ?_
  refine made_lift fun signal hsignal => made_lift fun port hport => made_line ?_
  exact Line.tidy_of_front "connect_sim_port(&" rfl (by decide)
    (Writes.connect hi hunit hsignal hport).oneLine_parts

/-- Starting sub-units is no registration, whatever their names. -/
theorem only_starts (m : Model) : Only (Line.Tidy functionMarks)
    (forEach m.body.instances fun i => do line (.initUnit (← m.context.host i.name))) :=
  only_of_made (made_forEach fun _ _ => made_lift fun _ hunit =>
    made_line (tidy_initUnit (Context.isProper_host hunit)))

end Model

namespace Summary

/-- How the line for the interfaces begins. -/
theorem interfacesLine_isPrefix (s : Summary) :
    "self.model.set_interfaces(".toList <+: s.interfacesLine.toList :=
  listLine_isPrefix (by decide) _

/-- How the line for the processes begins. -/
theorem processesLine_isPrefix (s : Summary) :
    "self.model.set_processes(".toList <+: s.processesLine.toList :=
  listLine_isPrefix (by decide) _

/-- How the line for the units begins. -/
theorem unitsLine_isPrefix (s : Summary) :
    "self.model.set_units(".toList <+: s.unitsLine.toList :=
  listLine_isPrefix (by decide) _

/-- The first three lines of the registration are printed. -/
theorem prints_lines (s : Summary) {first second third : Line} {rest : List Step}
    {texts : List String} (hfirst : first.text = s.interfacesLine)
    (hsecond : second.text = s.processesLine) (hthird : third.text = s.unitsLine)
    (hrest : Prints rest texts) :
    Prints (.write (.line first) :: .write (.line second) :: .write (.line third) :: rest)
      (s.interfacesLine :: s.processesLine :: s.unitsLine :: texts) := by
  have hlabels : ∀ text ∈ s.processes.map (fun p => quote p.label), OneLine text :=
    List.forall_mem_map.mpr fun p _ => oneLine_quote p.label
  have hunits := prints_listLine hthird (by decide) (by decide)
    (oneLine_copies s.units (by decide) (by decide)) hrest
  have hprocesses := prints_listLine hsecond (by decide) (by decide) hlabels hunits
  exact prints_listLine hfirst (by decide) (by decide)
    (oneLine_copies s.interfaces (by decide) (by decide)) hprocesses

end Summary

/-- The text of a copy of a proxy. -/
private theorem signal_clone_text (n : HostName) :
    (HostExpr.method (.field .proxies n) "clone" []).text = "self.io." ++ n.text ++ ".clone()" := by
  rw [clone_text, proxies_field_text]

/-- The text of a copy of the model of an instance. -/
private theorem unit_clone_text (n : HostName) :
    (HostExpr.method (.field (.field .self n) (.plain "model")) "clone" []).text =
      "self." ++ n.text ++ ".model.clone()" := by
  rw [clone_text, HostExpr.text, HostExpr.text, HostExpr.text]
  apply String.toList_inj.mp
  simp [HostName.text, HostName.plain]

private theorem prints_line {l : Line} {rest : List Step} {texts : List String}
    (hone : OneLine l.text) (hrest : Prints rest texts) :
    Prints (.write (.line l) :: rest) (l.code :: texts) :=
  prints_write hone rfl hrest

/-- A line that begins a block is printed. -/
theorem prints_enter {l : Line} {rest : List Step} {texts : List String} (hone : OneLine l.text)
    (hrest : Prints rest texts) : Prints (.write (.enter l) :: rest) (l.code :: texts) :=
  prints_write hone rfl hrest

/-- The end of a block is printed as a closing brace. -/
theorem prints_close {rest : List Step} {texts : List String} (hrest : Prints rest texts) :
    Prints (.write (.leave .close) :: rest) ("\x7d" :: texts) :=
  prints_write (by decide) (by decide) hrest

/-- An empty line is printed. -/
theorem prints_blank {rest : List Step} {texts : List String} (hrest : Prints rest texts) :
    Prints (.write .blank :: rest) ("" :: texts) :=
  prints_write (by decide) (by decide) hrest

namespace Model

/-- What a model says of itself, in the order of its declarations. -/
def summary (m : Model) : Summary where
  name := m.context.module
  interfaces := m.signals.map fun d => m.context.names.textOf d.name
  constants := m.constants.map fun d => m.context.names.textOf d.name
  processes := m.body.processes.map (ProcessDecl.summary m.context.names)
  units := m.body.instances.map fun i => m.context.names.textOf i.name

/-- **Everything is registered.**  Sub-units are tied to signals before and started after. -/
theorem initBody_yields {m : Model} {steps : List Step} {s : Summary}
    (h : m.initBody.Yields steps s) :
    s = m.summary ∧ ∃ ties starts, Unmarked functionMarks ties ∧ Unmarked functionMarks starts ∧
      Prints steps ("fn init_body(&mut self) \x7b" :: (ties ++
        s.interfacesLine :: s.processesLine :: s.unitsLine ::
        ((s.processes.flatMap fun p => [p.sensitivityLine, p.outputsLine]) ++ (starts ++
        ["\x7d", ""])))) := by
  -- The script is taken apart in the order in which it writes.
  unfold initBody at h
  obtain ⟨_, hties, hsteps⟩ := Script.yields_step_then_iff.mp h
  obtain ⟨tieSteps, _, hties, hconstants, hsteps₁⟩ := Script.yields_then_iff.mp hties
  obtain ⟨constants, hconstants, hinterfaces⟩ := Script.yields_lift_bind_iff.mp hconstants
  obtain ⟨interfaces, hinterfaces, hfields⟩ := Script.yields_lift_bind_iff.mp hinterfaces
  obtain ⟨fields, hfields, hline⟩ := Script.yields_lift_bind_iff.mp hfields
  obtain ⟨_, hlabels, hsteps₂⟩ := Script.yields_step_then_iff.mp hline
  obtain ⟨labels, hlabels, hline⟩ := Script.yields_lift_bind_iff.mp hlabels
  obtain ⟨_, hunits, hsteps₃⟩ := Script.yields_step_then_iff.mp hline
  obtain ⟨units, hunits, hunitFields⟩ := Script.yields_lift_bind_iff.mp hunits
  obtain ⟨unitFields, hunitFields, hline⟩ := Script.yields_lift_bind_iff.mp hunitFields
  obtain ⟨_, hprocesses, hsteps₄⟩ := Script.yields_step_then_iff.mp hline
  obtain ⟨processes, processSteps, _, hprocesses, hstarts, hsteps₅⟩ :=
    Script.yields_bind_iff.mp hprocesses
  obtain ⟨startSteps, _, hstarts, hleave, hsteps₆⟩ := Script.yields_then_iff.mp hstarts
  obtain ⟨_, hblank, hsteps₇⟩ := Script.yields_step_then_iff.mp hleave
  obtain ⟨_, hpure, hsteps₈⟩ := Script.yields_step_then_iff.mp hblank
  obtain ⟨hsteps₉, hvalue⟩ := Script.yields_pure_iff.mp hpure
  obtain ⟨hsummaries, hregistered⟩ := registrations_yield hprocesses
  obtain ⟨ties, hprintsTies, hunmarkedTies⟩ := prints_of_only m.only_ties hties
  obtain ⟨starts, hprintsStarts, hunmarkedStarts⟩ := prints_of_only m.only_starts hstarts
  have hsummary : s = m.summary := by
    rw [← hvalue, Context.texts_ok hconstants, Context.texts_ok hinterfaces,
      Context.texts_ok hunits, hsummaries]
    simp [summary]
  have hsignalTexts : HostExpr.texts (fields.map fun n => .method (.field .proxies n) "clone" []) =
      s.interfaces.map fun n => "self.io." ++ hostText n ++ ".clone()" := by
    rw [hsummary, Context.hosts_ok hfields, HostExpr.texts_eq_map]
    simp [summary, signal_clone_text, hostText]
  have hlabelTexts : labels = s.processes.map ProcessSummary.label := by
    rw [hsummary, Context.texts_ok hlabels]
    simp [summary, ProcessDecl.summary]
  have hunitTexts : HostExpr.texts (unitFields.map fun n =>
      .method (.field (.field .self n) (.plain "model")) "clone" []) =
      s.units.map fun n => "self." ++ hostText n ++ ".model.clone()" := by
    rw [hsummary, Context.hosts_ok hunitFields, HostExpr.texts_eq_map]
    simp [summary, unit_clone_text, hostText]
  refine ⟨hsummary, ties, starts, hunmarkedTies, hunmarkedStarts, ?_⟩
  rw [hsteps, hsteps₁, hsteps₂, hsteps₃, hsteps₄, hsteps₅, hsteps₆, hsteps₇, hsteps₈, hsteps₉]
  have hprocessTexts : processes = s.processes := by rw [← hvalue]
  rw [hprocessTexts] at hregistered
  refine prints_write (by decide) (by decide) (hprintsTies.append (s.prints_lines ?_ ?_ ?_
    (hregistered.append (hprintsStarts.append (prints_close (prints_blank prints_nil))))))
  · unfold Line.text Summary.interfacesLine listLine
    simp only [hsignalTexts]
  · unfold Line.text Summary.processesLine listLine
    simp only [hlabelTexts, List.map_map]
    rfl
  · unfold Line.text Summary.unitsLine listLine
    simp only [hunitTexts]

/-! ### Running processes -/

private theorem isFlush_natText (n : Nat) : isFlush (natText n) = true := by
  obtain ⟨c, cs, hform⟩ := List.exists_cons_of_ne_nil (natText_ne_nil n)
  have hmem : c ∈ (natText n).toList := by
    rw [hform]
    exact List.mem_cons_self
  have hdigit : c.isDigit = true := isDigit_of_mem_natText hmem
  have hname : isNameChar c = true := by
    simp [isNameChar, HostName.isWordChar, Char.isAlphanum, hdigit]
  simp [isFlush, hform, isBlank_of_isNameChar hname]

/-- The arms for processes, numbered from the first on. -/
theorem dispatch_yields {m : Model} {ps : List ProcessDecl} {index : Nat} {steps : List Step}
    (h : (m.dispatch index ps).Yields steps ()) :
    Prints steps ((ps.map (ProcessDecl.summary m.context.names)).mapIdx fun i p =>
      p.armLine (index + i)) := by
  induction ps generalizing index steps with
  | nil =>
      obtain ⟨rfl, -⟩ := Script.yields_pure_iff.mp h
      exact prints_nil
  | cons p ps ih =>
      rw [dispatch] at h
      obtain ⟨host, hhost, harm⟩ := Script.yields_lift_bind_iff.mp h
      obtain ⟨rest, hrest, rfl⟩ := Script.yields_step_then_iff.mp harm
      have htext : (Line.dispatch index host).text =
          (p.summary m.context.names).armLine index := by
        unfold Line.text ProcessSummary.armLine
        simp only [Context.host_ok hhost, hostText, ProcessDecl.summary]
      have hone : OneLine ((p.summary m.context.names).armLine index) := by
        unfold ProcessSummary.armLine
        simp +decide
      have hprints := ih hrest
      rw [List.map_cons, List.mapIdx_cons, Nat.add_zero]
      refine prints_text htext (natText index) "()," ?_ ?_ ?_ hone ?_
      · unfold ProcessSummary.armLine
        simp only [String.toList_append, List.append_assoc, List.prefix_append]
      · unfold ProcessSummary.armLine
        simp only [String.toList_append, List.suffix_append]
      · simp +decide [isFlush_natText]
      · simpa [Nat.add_assoc, Nat.add_comm 1] using hprints

/-- A line that begins with a word, and is not changed by taking white space away. -/
theorem Line.begins_code {l : Line} {word : String} (front back : String) (hform : l.front = front)
    (hback : back.toList <:+ l.text.toList) (hflush : (isFlush front && isFlushEnd back) = true)
    (hword : begins word front = true) : begins word l.code = true := by
  have hfront : front.toList <+: l.text.toList := hform ▸ l.front_isPrefix
  rw [Line.code_eq rfl front back hfront hback hflush]
  exact begins_iff.mpr ((begins_iff.mp hword).trans hfront)

end Model

/-- The lines of what the simulator calls: a header, the registrations between what ties and what
starts the sub-units, and the function that runs processes.  The lines around them are no
registrations. -/
structure UnitLines (s : Summary) where
  header : String
  ties : List String
  starts : List String
  last : String
  header_unmarked : Unmarked unitMarks [header]
  header_begins : begins "impl " header = true
  ties_unmarked : Unmarked functionMarks ties
  starts_unmarked : Unmarked functionMarks starts
  last_unmarked : Unmarked functionMarks [last]
  last_begins : begins "_ =>" last = true

namespace UnitLines

variable {s : Summary}

/-- The lines by which everything is registered. -/
def registrations (s : Summary) : List String :=
  s.interfacesLine :: s.processesLine :: s.unitsLine ::
    s.processes.flatMap fun p => [p.sensitivityLine, p.outputsLine]

/-- The lines of the function that runs processes, up to the end of the block. -/
def dispatcher (u : UnitLines s) : List String :=
  runProcessLine :: "match index \x7b" ::
    (s.processes.mapIdx ProcessSummary.armLine ++ u.last :: ["\x7d", "\x7d", "\x7d"])

/-- All the lines. -/
def texts (u : UnitLines s) : List String :=
  u.header :: (u.ties ++ (registrations s ++ (u.starts ++ u.dispatcher)))

end UnitLines

namespace Model

/-- **What the simulator calls.**  The summary is the one of the model, and the lines follow it. -/
theorem simUnit_yields {m : Model} {steps : List Step} {s : Summary}
    (h : m.simUnit.Yields steps s) : s = m.summary ∧ ∃ u : UnitLines s, Prints steps u.texts := by
  unfold simUnit at h
  obtain ⟨_, hmodel, hsteps⟩ := Script.yields_step_then_iff.mp h
  obtain ⟨_, href, hsteps₁⟩ := Script.yields_step_then_iff.mp hmodel
  obtain ⟨_, hleave, hsteps₂⟩ := Script.yields_step_then_iff.mp href
  obtain ⟨_, hblank, hsteps₃⟩ := Script.yields_step_then_iff.mp hleave
  obtain ⟨_, hregister, hsteps₄⟩ := Script.yields_step_then_iff.mp hblank
  obtain ⟨summary, initSteps, _, hinit, hrun, hsteps₅⟩ := Script.yields_bind_iff.mp hregister
  obtain ⟨_, hmatch, hsteps₆⟩ := Script.yields_step_then_iff.mp hrun
  obtain ⟨_, hdispatch, hsteps₇⟩ := Script.yields_step_then_iff.mp hmatch
  obtain ⟨armSteps, _, harms, hlast, hsteps₈⟩ := Script.yields_then_iff.mp hdispatch
  obtain ⟨_, hleave₁, hsteps₉⟩ := Script.yields_step_then_iff.mp hlast
  obtain ⟨_, hleave₂, hsteps₁₀⟩ := Script.yields_step_then_iff.mp hleave₁
  obtain ⟨_, hleave₃, hsteps₁₁⟩ := Script.yields_step_then_iff.mp hleave₂
  obtain ⟨_, hpure, hsteps₁₂⟩ := Script.yields_step_then_iff.mp hleave₃
  obtain ⟨hsteps₁₃, rfl⟩ := Script.yields_pure_iff.mp hpure
  obtain ⟨hsummary, ties, starts, hties, hstarts, hprintsInit⟩ := initBody_yields hinit
  have hprintsArms := dispatch_yields harms
  have hunit : OneLine m.context.unit.text := m.context.oneLine_unit
  have htidyHeader : (Line.simUnitImpl m.context.unit).Tidy unitMarks :=
    Line.tidy_of_front "impl SimUnit for " rfl (by decide) (by simpa [Line.parts] using hunit)
  have htidyLast : (Line.noProcess m.context.unit).Tidy functionMarks :=
    Line.tidy_of_front "_ => unreachable!(\"" rfl (by decide) (by simpa [Line.parts] using hunit)
  let u : UnitLines summary :=
    { header := (Line.simUnitImpl m.context.unit).code
      ties := ["fn model(&mut self) -> &mut SimModel \x7b", "&mut self.model", "\x7d", "",
        "fn init_body(&mut self) \x7b"] ++ ties
      starts := starts ++ ["\x7d", ""]
      last := (Line.noProcess m.context.unit).code
      header_unmarked := List.forall_mem_singleton.mpr htidyHeader.unmarked
      header_begins := by
        refine Line.begins_code "impl SimUnit for " " \x7b" rfl ?_ (by decide) (by decide)
        unfold Line.text
        simp only [String.toList_append, List.suffix_append]
      ties_unmarked := List.forall_mem_append.mpr ⟨by decide, hties⟩
      starts_unmarked := List.forall_mem_append.mpr ⟨hstarts, by decide⟩
      last_unmarked := List.forall_mem_singleton.mpr htidyLast.unmarked
      last_begins := by
        refine Line.begins_code "_ => unreachable!(\"" " has no process \x7bindex\x7d\")," rfl ?_
          (by decide) (by decide)
        unfold Line.text
        simp only [String.toList_append, List.suffix_append] }
  refine ⟨hsummary, u, ?_⟩
  have hprocesses : summary.processes =
      m.body.processes.map (ProcessDecl.summary m.context.names) := by
    rw [hsummary]
    rfl
  simp only [← hprocesses, Nat.zero_add] at hprintsArms
  have hprintsLast := prints_line htidyLast.oneLine
    (prints_close (prints_close (prints_close prints_nil)))
  have hprintsRun : Prints (.write (.enter .runProcessFn) :: .write (.enter .matchIndex) :: _)
      u.dispatcher :=
    prints_write (by decide) (by decide)
      (prints_write (by decide) (by decide) (hprintsArms.append hprintsLast))
  have hprintsBody := hprintsInit.append hprintsRun
  rw [hsteps, hsteps₁, hsteps₂, hsteps₃, hsteps₄, hsteps₅, hsteps₆, hsteps₇, hsteps₈, hsteps₉,
    hsteps₁₀, hsteps₁₁, hsteps₁₂, hsteps₁₃]
  unfold UnitLines.texts
  refine prints_enter htidyHeader.oneLine ?_
  simp only [u, UnitLines.registrations, List.append_assoc, List.cons_append, List.nil_append]
    at hprintsBody ⊢
  exact prints_write (by decide) (by decide) (prints_write (by decide) (by decide)
    (prints_close (prints_blank hprintsBody)))

end Model

end HdlSim
