import HdlSim.Proofs.Nesting
import HdlSim.Proofs.Registration
import HdlSim.Proofs.Sorting
import Mathlib.Data.Finset.Card

/-!
# What is reported about a module

The events that are reported about a module that is written are known from the module and its
summary (`Module.records`): the sizes of the buckets, then for every process a warning for each
repeated choice in its body and a record of its own, and at last a record of the model.  Everything
else that belongs to a model is written without a word (`Script.Quiet`), so the events of a script
are those of the few parts that report some (`Script.Reports`).

Main statement: `log_of_module`.
-/

namespace HdlSim

/-! ### Choices that are repeated -/

/-- How many of the choices are equal to an earlier one. -/
def repetitions (choices : List Expr) : Nat :=
  choices.zipIdx.countP fun (e, i) => e ∈ choices.take i

/-- The induction is on the choices, with those that were seen before them. -/
theorem Site.length_repeatedChoices (seen choices : List Expr) :
    (repeatedChoices seen choices).length =
      choices.zipIdx.countP fun (e, i) => e ∈ seen ∨ e ∈ choices.take i := by
  induction choices generalizing seen with
  | nil => rfl
  | cons e es ih =>
      have hrest : (es.zipIdx 1).countP (fun (e', i) => e' ∈ seen ∨ e' ∈ (e :: es).take i) =
          (repeatedChoices (e :: seen) es).length := by
        rw [ih, List.zipIdx_succ, List.countP_map]
        refine List.countP_congr fun p _ => ?_
        simp [or_assoc, or_left_comm]
      rw [List.zipIdx_cons, List.countP_cons, hrest, repeatedChoices]
      by_cases he : e ∈ seen <;> simp [he]

/-- What is not repeated is the first of its kind. -/
theorem Site.length_repeatedChoices_add (seen choices : List Expr) :
    (repeatedChoices seen choices).length + (choices.toFinset \ seen.toFinset).card =
      choices.length := by
  induction choices generalizing seen with
  | nil => simp [repeatedChoices]
  | cons e es ih =>
      have hrest := ih (e :: seen)
      rw [repeatedChoices, List.toFinset_cons, List.length_cons]
      by_cases he : e ∈ seen
      · have hmem : e ∈ seen.toFinset := List.mem_toFinset.mpr he
        rw [if_pos he, Finset.insert_sdiff_of_mem _ hmem, List.length_cons]
        rw [List.toFinset_cons, Finset.insert_eq_of_mem hmem] at hrest
        omega
      · have hmem : e ∉ seen.toFinset := fun h => he (List.mem_toFinset.mp h)
        have hinsert : insert e es.toFinset \ seen.toFinset =
            insert e (es.toFinset \ (e :: seen).toFinset) := by
          ext x
          by_cases hx : x = e <;> simp [hx, he]
        rw [if_neg he, hinsert, Finset.card_insert_of_notMem (by simp)]
        omega

/-- The repeated choices are counted. -/
theorem Site.length_repeatedChoices_nil (choices : List Expr) :
    (repeatedChoices [] choices).length = repetitions choices := by
  rw [length_repeatedChoices]
  simp [repetitions]

/-- **Repeated choices** are all but the different ones. -/
theorem repetitions_eq (choices : List Expr) :
    repetitions choices = choices.length - choices.toFinset.card := by
  have hall := Site.length_repeatedChoices_add [] choices
  rw [Site.length_repeatedChoices_nil, List.toFinset_nil, Finset.sdiff_empty] at hall
  omega

mutual

/-- The case statements in a statement, each by the choices of all its arms, outer ones first. -/
def Stmt.cases : Stmt → List (List Expr)
  | .assign _ _ => []
  | .ifElse branches elseBody => branchCases branches ++ optionCases elseBody
  | .case _ arms default =>
    arms.flatMap CaseArm.choices :: (armCases arms ++ optionCases default)
  | .block body => blockCases body
  | .null => []

/-- The case statements in statements in order. -/
def blockCases : List Stmt → List (List Expr)
  | [] => []
  | first :: rest => first.cases ++ blockCases rest

/-- The case statements in the bodies of branches. -/
def branchCases : List IfBranch → List (List Expr)
  | [] => []
  | ⟨_, body⟩ :: rest => blockCases body ++ branchCases rest

/-- The case statements in the bodies of arms. -/
def armCases : List CaseArm → List (List Expr)
  | [] => []
  | ⟨_, body⟩ :: rest => blockCases body ++ armCases rest

/-- The case statements in a body, if there is one. -/
def optionCases : Option (List Stmt) → List (List Expr)
  | none => []
  | some body => blockCases body

end

/-! ### Scripts and what they report -/

/-- The step is not a report. -/
def Step.Silent : Step → Prop
  | .write _ => True
  | .log _ => False
  | .mark _ => True

namespace Script

variable {α β : Type} {es es' : List Event}

/-- Nothing is reported, whether the script succeeds or fails. -/
def Quiet (s : Script α) : Prop := events s.steps = []

/-- Two quiet scripts in a row. -/
theorem quiet_bind {s : Script α} {f : α → Script β} (hs : Quiet s)
    (hf : ∀ a, Quiet (f a)) :
    Quiet (s >>= f) := by
  obtain ⟨steps, outcome⟩ := s
  cases outcome with
  | error failure => exact hs
  | ok a =>
      show events (steps ++ (f a).steps) = []
      rw [events_append, hs, hf a, List.append_nil]

/-- A computation reports nothing. -/
theorem quiet_lift {x : Except Failure α} {f : α → Script β} (hf : ∀ a, Quiet (f a)) :
    Quiet ((liftM x : Script α) >>= f) :=
  quiet_bind rfl hf

/-- A script that only returns reports nothing. -/
theorem quiet_pure (a : α) : Quiet (pure a : Script α) := rfl

/-- A command reports nothing. -/
theorem quiet_write (command : Command Line) : Quiet (step (.write command)) := rfl

private theorem quiet_mark (m : Mark) : Quiet (mark m) := rfl

/-- A script whose steps are silent is quiet. -/
theorem quiet_of_made {s : Script α} (h : Made Step.Silent 0 0 s) : Quiet s := by
  refine List.filterMap_eq_nil_iff.mpr fun st hst => ?_
  cases st with
  | write command => rfl
  | log event => exact (h.steps _ hst).elim
  | mark m => rfl

/-- **What a script reports**, if it succeeds. -/
def Reports (es : List Event) (s : Script α) : Prop := ∀ a, s.outcome = .ok a → events s.steps = es

/-- A quiet script reports nothing. -/
theorem reports_of_quiet {s : Script α} (h : Quiet s) : Reports [] s := fun _ _ => h

/-- Two scripts in a row report what both report. -/
theorem reports_bind {s : Script α} {f : α → Script β} (hs : Reports es s)
    (hf : ∀ a, s.outcome = .ok a → Reports es' (f a)) : Reports (es ++ es') (s >>= f) := by
  obtain ⟨steps, outcome⟩ := s
  intro b hb
  cases outcome with
  | error failure => cases hb
  | ok a =>
      show events (steps ++ (f a).steps) = es ++ es'
      rw [events_append, hs a rfl, hf a rfl b hb]

/-- A quiet script in front adds nothing. -/
theorem reports_quiet_bind {s : Script α} {f : α → Script β} (hs : Quiet s)
    (hf : ∀ a, s.outcome = .ok a → Reports es (f a)) : Reports es (s >>= f) := by
  rw [← List.nil_append es]
  exact reports_bind (reports_of_quiet hs) hf

/-- A quiet script behind adds nothing. -/
theorem reports_bind_quiet {s : Script α} {f : α → Script β} (hs : Reports es s)
    (hf : ∀ a, Quiet (f a)) : Reports es (s >>= f) := by
  rw [← List.append_nil es]
  exact reports_bind hs fun a _ => reports_of_quiet (hf a)

/-- A computation in front adds nothing. -/
theorem reports_lift {x : Except Failure α} {f : α → Script β}
    (hf : ∀ a, x = .ok a → Reports es (f a)) : Reports es ((liftM x : Script α) >>= f) :=
  reports_quiet_bind rfl hf

/-- An event is reported. -/
theorem reports_log (event : Event) : Reports [event] (log event) := fun _ _ => rfl

/-- A script for each member of a list reports what each of them does. -/
theorem reports_forEach {xs : List α} {f : α → Script Unit} {g : α → List Event}
    (h : ∀ x ∈ xs, Reports (g x) (f x)) : Reports (xs.flatMap g) (forEach xs f) := by
  induction xs with
  | nil => exact reports_of_quiet rfl
  | cons x xs ih =>
      obtain ⟨hx, hxs⟩ := List.forall_mem_cons.mp h
      rw [List.flatMap_cons]
      exact reports_bind hx fun _ _ => ih hxs

private theorem reports_enclosed {l : Line} {body : Script α} (h : Reports es body) :
    Reports es (enclosed l body) :=
  reports_quiet_bind (quiet_write _) fun _ _ => reports_bind_quiet h fun _ =>
    quiet_bind (quiet_write _) fun _ => quiet_pure _

/-- What a script reports, if there is one. -/
def ReportsAny (es : List Event) : Option (Script Unit) → Prop
  | none => es = []
  | some s => Reports es s

end Script

open Script

/-! ### Statements -/

/-- An event once for every repeated choice of some case statements. -/
def warnings (event : Event) (cases : List (List Expr)) : List Event :=
  cases.flatMap fun choices => List.replicate (repetitions choices) event

/-- The warnings for two lists of case statements. -/
theorem warnings_append (event : Event) (front back : List (List Expr)) :
    warnings event (front ++ back) = warnings event front ++ warnings event back :=
  List.flatMap_append

private theorem warnings_cons (event : Event) (choices : List Expr) (rest : List (List Expr)) :
    warnings event (choices :: rest) =
      List.replicate (repetitions choices) event ++ warnings event rest :=
  List.flatMap_cons

namespace Site

/-- The warning about a choice that is repeated. -/
def warning (s : Site) : Event := .duplicateChoice s.context.module s.object

variable {s : Site}

/-- A warning for each repetition among the choices. -/
private theorem reports_warnRepeated (arms : List CaseArm) :
    Reports (List.replicate (repetitions (arms.flatMap CaseArm.choices)) s.warning)
      (s.warnRepeated arms) := by
  rw [← length_repeatedChoices_nil, ← List.map_const', List.map_eq_flatMap]
  exact reports_forEach fun _ _ => reports_log _

/-- Steps without warnings are quiet. -/
theorem quiet_unwarned {α : Type} {script : Script α}
    (h : Made (s.Takes false) 0 0 script) :
    Quiet script :=
  quiet_of_made (h.mono fun _ hst => by
    cases hst with
    | write _ => exact trivial
    | warn hreports => cases hreports)

/-- The arm for a condition that does not hold reports what its body does. -/
private theorem reports_falseArm {es : List Event} {next : Option (Script Unit)}
    (h : ReportsAny es next) :
    Reports es (falseArm next) := by
  cases next with
  | none =>
      obtain rfl : es = [] := h
      exact reports_of_quiet (quiet_write _)
  | some script =>
      exact reports_quiet_bind (quiet_write _) fun _ _ =>
        reports_bind_quiet h fun _ => quiet_write _

/-- The block of the default reports what its body does. -/
private theorem reports_defaultArm {es : List Event} {default : Option (Script Unit)}
    (h : ReportsAny es default) : Reports es (defaultArm default) := by
  cases default with
  | none =>
      obtain rfl : es = [] := h
      exact reports_of_quiet (quiet_pure _)
  | some script => exact reports_quiet_bind (quiet_write _) fun _ _ => h

/-- A body reports what its statements do. -/
theorem reports_block_of_forall {body : List Stmt}
    (h : ∀ st ∈ body, Reports (warnings s.warning st.cases) (s.stmt st)) :
    Reports (warnings s.warning (blockCases body)) (s.block body) := by
  induction body with
  | nil => exact reports_of_quiet (quiet_pure _)
  | cons st body ih =>
      obtain ⟨hst, hbody⟩ := List.forall_mem_cons.mp h
      rw [block, blockCases, warnings_append]
      exact reports_bind hst fun _ _ => ih hbody

/-- A body that may be missing reports what its statements do. -/
theorem reports_optionBlock {body : Option (List Stmt)}
    (h : ∀ b ∈ body, ∀ st ∈ b, Reports (warnings s.warning st.cases) (s.stmt st)) :
    ReportsAny (warnings s.warning (optionCases body)) (s.optionBlock body) := by
  cases body with
  | none => rfl
  | some body => exact reports_block_of_forall (h body rfl)

/-- The branches of an if statement are nested in each other, and yet they report in order. -/
theorem reports_branches {elseTargets : List Ident → List Ident} {elseBody : Option (Script Unit)}
    {es : List Event} {branches : List IfBranch}
    (hbodies : ∀ b ∈ branches, ∀ st ∈ b.body, Reports (warnings s.warning st.cases) (s.stmt st))
    (helse : ReportsAny es elseBody) :
    Reports (warnings s.warning (branchCases branches) ++ es)
      (s.branches elseTargets elseBody branches) := by
  induction branches with
  | nil =>
      intro a ha
      cases ha
  | cons b rest ih =>
      obtain ⟨condition, body⟩ := b
      obtain ⟨hbody, hrest⟩ := List.forall_mem_cons.mp hbodies
      have hfalse : ReportsAny (warnings s.warning (branchCases rest) ++ es)
          (if rest.isEmpty then elseBody else some (s.branches elseTargets elseBody rest)) := by
        cases rest with
        | nil => exact helse
        | cons b' rest => exact ih hrest
      rw [Site.branches, branchCases, warnings_append, List.append_assoc]
      refine reports_lift fun c _ => reports_quiet_bind (quiet_write _) fun _ _ => ?_
      refine reports_quiet_bind (quiet_write _) fun _ _ => ?_
      refine reports_bind (reports_block_of_forall hbody) fun _ _ => ?_
      refine reports_quiet_bind (quiet_write _) fun _ _ => ?_
      exact reports_bind_quiet (reports_falseArm hfalse) fun _ =>
        quiet_bind (quiet_unwarned (made_invalidArm _)) fun _ => quiet_write _

private theorem reports_arms {arms : List CaseArm}
    (hbodies : ∀ arm ∈ arms, ∀ st ∈ arm.body, Reports (warnings s.warning st.cases) (s.stmt st)) :
    Reports (warnings s.warning (armCases arms)) (s.arms arms) := by
  induction arms with
  | nil => exact reports_of_quiet (quiet_pure _)
  | cons arm rest ih =>
      obtain ⟨choices, body⟩ := arm
      obtain ⟨hbody, hrest⟩ := List.forall_mem_cons.mp hbodies
      rw [Site.arms, armCases, warnings_append]
      exact reports_lift fun l _ => reports_quiet_bind (quiet_write _) fun _ _ =>
        reports_bind (reports_block_of_forall hbody) fun _ _ => ih hrest

/-- **One statement**, by induction on the statement. -/
private theorem reports_stmt (st : Stmt) : Reports (warnings s.warning st.cases) (s.stmt st) := by
  induction st using Stmt.bodyInduction with
  | assign target value =>
      rw [stmt]
      exact reports_of_quiet (quiet_lift fun _ => quiet_write _)
  | ifElse branches elseBody ihbodies ihelse =>
      rw [stmt, Stmt.cases, warnings_append]
      exact reports_branches ihbodies (reports_optionBlock ihelse)
  | case selector arms default ihbodies ihdefault =>
      rw [stmt, Stmt.cases, warnings_cons, warnings_append]
      refine reports_bind (reports_warnRepeated arms) fun _ _ => ?_
      refine reports_quiet_bind (quiet_write _) fun _ _ => reports_lift fun _ _ => ?_
      refine reports_quiet_bind (quiet_write _) fun _ _ => ?_
      refine reports_quiet_bind (quiet_write _) fun _ _ => ?_
      refine reports_quiet_bind (quiet_unwarned (made_invalidate _)) fun _ _ => ?_
      refine reports_bind (reports_arms ihbodies) fun _ _ => ?_
      exact reports_bind_quiet (reports_defaultArm (reports_optionBlock ihdefault)) fun _ =>
        quiet_bind (quiet_write _) fun _ => quiet_write _
  | block body ih =>
      rw [stmt, Stmt.cases]
      exact reports_block_of_forall ih
  | null =>
      rw [stmt]
      exact reports_of_quiet (quiet_pure _)

/-- **Statements** report the choices that are repeated in them. -/
theorem reports_statements (body : List Stmt) :
    Reports (warnings s.warning (blockCases body)) (s.block body) :=
  reports_block_of_forall fun st _ => reports_stmt st

end Site

/-! ### Models -/

namespace Model

variable {m : Model}

/-- Nothing is reported about a model but its processes. -/
theorem quiet_unreported {α : Type} {s : Script α} (h : Made (m.Takes true true false) 0 0 s) :
    Quiet s :=
  quiet_of_made (h.mono fun _ hst => by
    cases hst with
    | plain _ _ => exact trivial
    | blank _ => exact trivial
    | register _ _ _ => exact trivial
    | report hreports => cases hreports)

/-- What is reported about a process. -/
def processEvents (c : Context) (p : ProcessDecl) : List Event :=
  let label := c.names.textOf p.label
  warnings (.duplicateChoice c.module ("process `" ++ label ++ "`")) (blockCases p.body) ++
    [.loweredProcess label p.body.length]

/-- A process reports the warnings for its body, and its own event. -/
theorem reports_processFunction (p : ProcessDecl) :
    Reports (processEvents m.context p) (m.processFunction p) := by
  rw [processFunction_eq]
  refine reports_lift fun label hlabel => ?_
  obtain rfl : m.context.names.textOf p.label = label := by
    rw [NameTable.textOf, Context.name_eq_ok_iff.mp hlabel]
    rfl
  refine reports_quiet_bind (quiet_of_made (made_doc (fun _ _ => trivial) _)) fun _ _ => ?_
  refine reports_lift fun host _ => ?_
  exact reports_bind (reports_enclosed (Site.reports_statements p.body)) fun _ _ => reports_log _

private theorem reports_processes :
    Reports (m.body.processes.flatMap (processEvents m.context)) m.processes := by
  unfold processes
  split
  · next hnone =>
      rw [hnone]
      exact reports_of_quiet (quiet_pure _)
  · next first rest hsome =>
      rw [hsome, List.flatMap_cons]
      refine reports_quiet_bind (quiet_write _) fun _ _ => ?_
      refine reports_quiet_bind (quiet_write _) fun _ _ => ?_
      refine reports_bind (reports_processFunction first) fun _ _ => ?_
      refine reports_bind_quiet (reports_forEach fun p _ => ?_) fun _ => quiet_write _
      exact reports_quiet_bind (quiet_write _) fun _ _ => reports_processFunction p

/-- **Models** report their processes. -/
theorem reports_script (settings : Settings) :
    Reports (m.body.processes.flatMap (processEvents m.context)) (m.script settings) := by
  unfold script
  have himports : Made Step.Silent 0 0 (m.imports settings) :=
    made_imports (fun _ _ _ _ _ _ => trivial) trivial
  refine reports_quiet_bind (quiet_of_made himports) fun _ _ => ?_
  refine reports_quiet_bind (quiet_unreported made_structures) fun _ _ => ?_
  refine reports_quiet_bind (quiet_unreported made_constructor) fun _ _ => ?_
  refine reports_quiet_bind (quiet_unreported made_simUnit) fun _ _ => ?_
  exact reports_bind_quiet reports_processes fun _ => quiet_pure _

end Model

/-! ### Modules -/

/-- How many items of a module belong into a bucket. -/
def Module.size (m : Module) (b : Bucket) : Nat :=
  m.items.countP fun item => item.bucket? = some b

/-- The number of items of a kind. -/
theorem Module.length_bucket (m : Module) (b : Bucket) :
    ((Body.ofItems m.items).bucket b).length = m.size b := by
  rw [Body.bucket_ofItems, Module.size, List.countP_eq_length_filter]

/-- The report about the sorted items of a module. -/
def Module.sortingEvent (c : Context) (m : Module) : Event :=
  .classified c.module (m.size .types) (m.size .vars) (m.size .processes) (m.size .instances)

/-- **Sorting** reports the sizes of the buckets. -/
theorem Body.reports_sort (c : Context) (m : Module) :
    Reports [m.sortingEvent c] (Body.sort c m.items) := by
  intro body hbody
  have hnone := List.findSome?_eq_none_iff.mpr (Body.sort_succeeds_iff.mp ⟨body, hbody⟩)
  have htypes := m.length_bucket .types
  have hvars := m.length_bucket .vars
  have hprocesses := m.length_bucket .processes
  have hinstances := m.length_bucket .instances
  simp only [Body.bucket, List.length_map] at htypes hvars hprocesses hinstances
  unfold Body.sort Module.sortingEvent
  simp only [hnone, ← htypes, ← hvars, ← hprocesses, ← hinstances]
  rfl

namespace Session

/-- **Modules** report the sizes of the buckets, and then every process. -/
theorem reports_moduleScript (s : Session) (settings : Settings) (c : Context) (m : Module) :
    Reports (m.sortingEvent c :: m.processes.flatMap (Model.processEvents c))
      (s.moduleScript settings c m) := by
  have hmodel : Reports [m.sortingEvent c] (Model.ofModule c m) := by
    unfold Model.ofModule
    exact reports_lift fun _ _ => reports_bind_quiet (Body.reports_sort c m) fun _ =>
      quiet_lift fun _ => quiet_pure _
  have hseparator : Made Step.Silent 0 0 s.separator := made_separator trivial s
  have hpreamble : Made Step.Silent 0 0 (s.preambleScript settings) :=
    made_preambleScript (fun _ _ => trivial) trivial trivial s settings
  unfold moduleScript
  refine reports_bind hmodel fun model hok => ?_
  obtain rfl := Model.ofModule_ok hok
  refine reports_quiet_bind (quiet_of_made hseparator) fun _ _ => ?_
  refine reports_quiet_bind (quiet_mark _) fun _ _ => ?_
  exact reports_quiet_bind (quiet_of_made hpreamble) fun _ _ => Model.reports_script settings

end Session

/-! ### Records -/

/-- What a log shows of an event: the module whose span was open, and the level, the message and the
fields of the event. -/
structure Record where
  span : Option String
  level : Level
  message : String
  fields : List (String × FieldValue)
deriving DecidableEq

/-- The record of an entry of the log. -/
def LogEntry.record (entry : LogEntry) : Record :=
  ⟨entry.span, entry.event.level, entry.event.message, entry.event.fields⟩

/-- **The records of a process**: a warning for every repeated choice in its body, and the process
with the number of its statements. -/
def ProcessDecl.records (names : NameTable) (module : String) (p : ProcessDecl) : List Record :=
  let label := names.textOf p.label
  let warning : Record :=
    ⟨some module, .warn, "duplicate case choice; the first matching arm is taken",
      [("module", .text module), ("object", .text ("process `" ++ label ++ "`"))]⟩
  let lowered : Record :=
    ⟨some module, .debug, "lowered process",
      [("process", .text label), ("statements", .count p.body.length)]⟩
  (blockCases p.body).flatMap (fun choices => List.replicate (repetitions choices) warning) ++
    [lowered]

/-- **The records of a module** that is written: the sizes of the buckets, every process, and the
model with the sizes of its summary. -/
def Module.records (names : NameTable) (m : Module) (summary : Summary) : List Record :=
  let module := names.textOf m.name
  let sorted : Record :=
    ⟨some module, .trace, "classified module body",
      [("module", .text module), ("types", .count (m.size .types)),
        ("variables", .count (m.size .vars)), ("processes", .count (m.size .processes)),
        ("components", .count (m.size .instances))]⟩
  let lowered : Record :=
    ⟨some module, .debug, "lowered module",
      [("interfaces", .count summary.interfaces.length),
        ("processes", .count summary.processes.length), ("units", .count summary.units.length)]⟩
  sorted :: m.processes.flatMap (ProcessDecl.records names module) ++ [lowered]

/-- The record of a failure. -/
def Failure.record (span : Option String) (failure : Failure) : Record :=
  ⟨span, .error, failure.report.message, [("kind", .text failure.report.kind.describe)]⟩

private theorem Model.map_processEvents (c : Context) (p : ProcessDecl) :
    (processEvents c p).map (fun event => (LogEntry.mk (some c.module) event).record) =
      p.records c.names c.module := by
  simp only [processEvents, warnings, ProcessDecl.records, List.map_append, List.map_flatMap,
    List.map_replicate]
  rfl

namespace Session

variable {names : NameTable} {settings : Settings} {s : Session} {m : Module}

/-- **The log of a module that is written.** -/
theorem log_of_emit_ok {summary : Summary} (h : (s.emit names settings m).result = .ok summary) :
    (s.emit names settings m).log.map LogEntry.record = m.records names summary := by
  unfold emit at h ⊢
  cases hname : names.resolve? m.name with
  | none => simp [hname] at h
  | some name =>
      simp only [hname] at h ⊢
      have htext : names.textOf m.name = name := by
        rw [NameTable.textOf, hname]
        rfl
      have hevents := perform_events (perform_of_run_ok h)
      rw [s.reports_moduleScript settings ⟨names, name⟩ m summary (run_ok h).1] at hevents
      have hlog : (s.run (s.moduleScript settings ⟨names, name⟩ m)).log =
          m.sortingEvent ⟨names, name⟩ :: m.processes.flatMap (Model.processEvents ⟨names, name⟩) :=
        hevents
      rw [hlog, h]
      simp only [List.map_map, List.map_append, List.map_cons, List.map_flatMap, Module.records,
        htext]
      rw [← funext (Model.map_processEvents ⟨names, name⟩)]
      rfl

/-- The last entry in the log of a module that fails. -/
theorem log_of_emit_error {failure : Failure}
    (h : (s.emit names settings m).result = .error failure) :
    ((s.emit names settings m).log.map LogEntry.record).getLast? =
      some (failure.record (names.resolve? m.name)) := by
  unfold emit at h ⊢
  cases hname : names.resolve? m.name with
  | none =>
      simp only [hname] at h ⊢
      obtain rfl := Except.error.inj h
      rfl
  | some name =>
      simp only [hname] at h ⊢
      rw [h, List.map_append, List.map_append]
      simp [closingEvent, LogEntry.record, Failure.record, Event.level, Event.message, Event.fields]

end Session

/-- **The log is determined by the module.**  In every session, the log of a module that is written
holds exactly the records of the module, and the log of a module that fails ends with an error of
the failure's kind and in its words.  The choices that are warned about are all but the different
ones. -/
theorem log_of_module (names : NameTable) (settings : Settings) (s : Session) (m : Module) :
    (∀ summary, (s.emit names settings m).result = .ok summary →
      (s.emit names settings m).log.map LogEntry.record = m.records names summary) ∧
      (∀ failure, (s.emit names settings m).result = .error failure →
        ((s.emit names settings m).log.map LogEntry.record).getLast? =
          some (failure.record (names.resolve? m.name))) ∧
      ∀ choices, repetitions choices = choices.length - choices.toFinset.card :=
  ⟨fun _ => Session.log_of_emit_ok, fun _ => Session.log_of_emit_error, repetitions_eq⟩

/-- A case statement with a choice in both of its arms, in one of which there is a case statement
with a choice that is given three times; and a module whose name is not known. -/
theorem log_of_module_nested :
    let names : NameTable := ⟨["top", "y", "p"]⟩
    let s : Session := .start none
    let one : Expr := .literal (.int 1)
    let two : Expr := .literal (.int 2)
    let inner : Stmt := .case (.name ⟨1⟩) [⟨[one, one, one], []⟩] none
    let outer : Stmt := .case (.name ⟨1⟩) [⟨[one, two], [inner]⟩, ⟨[two], []⟩] none
    let p : ProcessDecl := { ProcessDecl.ofBody ⟨2⟩ [] [.null, outer] with outputs := some [] }
    let m : Module :=
      { Module.empty ⟨0⟩ with
        ports := [.port ⟨1⟩ .input (.bits 8 false)], items := [.process p] }
    let warning : Record :=
      ⟨some "top", .warn, "duplicate case choice; the first matching arm is taken",
        [("module", .text "top"), ("object", .text ("process `" ++ "p" ++ "`"))]⟩
    (∃ summary, (s.emit names ⟨true, none⟩ m).result = .ok summary ∧
        (s.emit names ⟨true, none⟩ m).log.map LogEntry.record = m.records names summary ∧
        p.records names "top" = [warning, warning, warning, ⟨some "top", .debug, "lowered process",
          [("process", .text "p"), ("statements", .count 2)]⟩]) ∧
      ∃ failure, (s.emit names ⟨true, none⟩ (.empty ⟨7⟩)).result = .error failure ∧
        ((s.emit names ⟨true, none⟩ (.empty ⟨7⟩)).log.map LogEntry.record).getLast? =
          some (failure.record none) := by
  intro names s one two inner outer p m warning
  have hname : names.resolve? m.name = some "top" := rfl
  have hok : (s.moduleScript ⟨true, none⟩ ⟨names, "top"⟩ m).outcome.isOk = true := by decide +kernel
  have hlimit : s.writer.sink.limit = none := rfl
  have hresult := Session.emit_unlimited hname hlimit ⟨true, none⟩
  constructor
  · cases houtcome : (s.moduleScript ⟨true, none⟩ ⟨names, "top"⟩ m).outcome with
    | error failure => simp [houtcome, Except.isOk, Except.toBool] at hok
    | ok summary =>
        rw [houtcome] at hresult
        exact ⟨summary, hresult, (log_of_module names ⟨true, none⟩ s m).1 summary hresult,
          by decide +kernel⟩
  · exact ⟨_, rfl, (log_of_module names ⟨true, none⟩ s (.empty ⟨7⟩)).2.1 _ rfl⟩

end HdlSim
