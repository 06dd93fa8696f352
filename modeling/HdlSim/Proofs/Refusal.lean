import HdlSim.Proofs.ModuleAcceptance

/-!
# Modules that are refused at once

A module is refused before anything of it is written if its name is not known, generic parameters
are left in it, an item of it is a function, or its names are not known or collide
(`Module.Refused`).  Up to that point a script only reports events (`Script.Silent`), so the session
stays as it is, in whatever state it may be (`Session.emit_of_refused`).

A session serves requests one after another and goes on after failures.  Its history is what came of
each request.  Main statement: requests for refused modules can be struck from a history, and what
is left is the history without them (`refused_modules_leave_no_trace`).
-/

namespace HdlSim

/-! ### Scripts that only report -/

namespace Script

variable {α β : Type}

/-- Nothing is written and no mark is set, whether the script succeeds or fails. -/
def Silent (s : Script α) : Prop := ∀ st ∈ s.steps, ∃ event, st = .log event

/-- Two scripts in a row that only report. -/
theorem silent_bind {s : Script α} {f : α → Script β} (hs : Silent s)
    (hf : ∀ a, s.outcome = .ok a → Silent (f a)) : Silent (s >>= f) := by
  obtain ⟨steps, outcome⟩ := s
  cases outcome with
  | error failure => exact hs
  | ok a => exact List.forall_mem_append.mpr ⟨hs, hf a rfl⟩

/-- A computation writes nothing. -/
theorem silent_lift (x : Except Failure α) : Silent (liftM x : Script α) := by
  intro st hst
  cases hst

/-- A script that only returns writes nothing. -/
theorem silent_pure (a : α) : Silent (pure a : Script α) := by
  intro st hst
  cases hst

private theorem silent_fail (failure : Failure) : Silent (fail failure : Script α) := by
  intro st hst
  cases hst

/-- An event is only a report. -/
theorem silent_log (event : Event) : Silent (log event) := by
  intro st hst
  exact ⟨event, List.mem_singleton.mp hst⟩

end Script

open Script

private theorem Body.sort_silent (c : Context) (items : List Item) :
    Silent (Body.sort c items) := by
  unfold Body.sort
  split
  · apply silent_bind (silent_lift _)
    intro name _
    exact silent_bind (silent_log _) fun _ _ => silent_fail _
  · exact silent_bind (silent_log _) fun _ _ => silent_pure _

/-- Until its model is made, nothing of a module is written. -/
theorem Model.ofModule_silent (c : Context) (m : Module) : Silent (Model.ofModule c m) := by
  unfold Model.ofModule
  apply silent_bind (silent_lift _)
  intro _ _
  apply silent_bind (Body.sort_silent c m.items)
  intro body _
  exact silent_bind (silent_lift _) fun _ _ => silent_pure _

namespace Session

/-- Events can be reported in every session, and leave it as it is. -/
theorem perform_of_silent (s : Session) {steps : List Step}
    (h : ∀ st ∈ steps, ∃ event, st = .log event) :
    (s.perform steps).1 = s ∧ (s.perform steps).2.2 = true := by
  induction steps with
  | nil => exact ⟨rfl, rfl⟩
  | cons st rest ih =>
      obtain ⟨⟨event, rfl⟩, hrest⟩ := List.forall_mem_cons.mp h
      exact ih hrest

/-- A script that fails without having written anything leaves the session as it is. -/
theorem run_of_silent {α : Type} (s : Session) {script : Script α} (hsilent : Silent script) :
    (s.run script).session = s ∧ (s.run script).result = script.outcome := by
  obtain ⟨hsession, hdone⟩ := s.perform_of_silent hsilent
  refine ⟨hsession, ?_⟩
  unfold run
  simp only [hdone, if_true]

end Session

/-! ### Refused modules -/

/-- **A module that is refused before anything of it is written.** -/
inductive Module.Refused (names : NameTable) (m : Module) : Prop
  /-- The name of the module is not known. -/
  | unnamed (h : ¬ names.Resolves m.name)
  /-- Generic parameters are left. -/
  | generic (h : m.params ≠ [])
  /-- An item belongs to none of the groups into which the items are sorted. -/
  | function {item : Item} (hitem : item ∈ m.items) (h : item.function? ≠ none)
  /-- A name that becomes a field is not known or collides with another one. -/
  | fields (h : ¬ ((∀ n ∈ Scope.fieldNames m.ports (Body.ofItems m.items), names.Resolves n) ∧
      NoCollision names (Scope.fieldNames m.ports (Body.ofItems m.items))))
  /-- A name that becomes a function is not known or collides with another one. -/
  | functions (h : ¬ ((∀ n ∈ Scope.functionNames (Body.ofItems m.items), names.Resolves n) ∧
      NoCollision names (Scope.functionNames (Body.ofItems m.items))))

/-- A module with a known name is refused exactly if no model can be made of it. -/
theorem Module.refused_iff {names : NameTable} {m : Module} {name : String}
    (hname : names.resolve? m.name = some name) :
    m.Refused names ↔ ¬ Succeeds (Model.ofModule ⟨names, name⟩ m).outcome := by
  rw [Model.ofModule_succeeds_iff, Scope.build_succeeds_iff]
  constructor
  · intro h hmodel
    obtain ⟨hparams, hitems, hfields, hfunctions⟩ := hmodel
    cases h with
    | unnamed h => exact h ⟨name, hname⟩
    | generic h => exact h hparams
    | function hitem h => exact h (hitems _ hitem)
    | fields h => exact h hfields
    | functions h => exact h hfunctions
  · intro h
    by_cases hparams : m.params = []
    · by_cases hitems : ∀ item ∈ m.items, item.function? = none
      · by_cases hfields :
            (∀ n ∈ Scope.fieldNames m.ports (Body.ofItems m.items), names.Resolves n) ∧
              NoCollision names (Scope.fieldNames m.ports (Body.ofItems m.items))
        · exact .functions fun hfunctions => h ⟨hparams, hitems, hfields, hfunctions⟩
        · exact .fields hfields
      · obtain ⟨item, hitem, hfunction⟩ : ∃ item ∈ m.items, item.function? ≠ none := by
          simpa using hitems
        exact .function hitem hfunction
    · exact .generic hparams

/-- Whether a module is refused can be found out by trying to make a model of it. -/
instance (names : NameTable) (m : Module) : Decidable (m.Refused names) :=
  match hname : names.resolve? m.name with
  | none => .isTrue (.unnamed fun ⟨_, htext⟩ => nomatch hname.symm.trans htext)
  | some name =>
    match hmodel : (Model.ofModule ⟨names, name⟩ m).outcome with
    | .ok model => .isFalse fun h => (Module.refused_iff hname).mp h ⟨model, hmodel⟩
    | .error _ => .isTrue ((Module.refused_iff hname).mpr fun ⟨_, h⟩ => nomatch hmodel.symm.trans h)

namespace Session

/-- **One refused module** is a failure that leaves the session as it is. -/
theorem emit_of_refused {names : NameTable} {m : Module} (h : m.Refused names) (settings : Settings)
    (s : Session) : (∃ failure, (s.emit names settings m).result = .error failure) ∧
      (s.emit names settings m).session = s := by
  cases hname : names.resolve? m.name with
  | none =>
      unfold emit
      simp only [hname]
      exact ⟨⟨_, rfl⟩, trivial⟩
  | some name =>
      -- The script of the module ends where making the model fails.
      have hfails := (Module.refused_iff hname).mp h
      cases hmodel : (Model.ofModule ⟨names, name⟩ m).outcome with
      | ok model => exact absurd ⟨model, hmodel⟩ hfails
      | error failure =>
          have houtcome : (s.moduleScript settings ⟨names, name⟩ m).outcome = .error failure := by
            rw [moduleScript, outcome_bind, hmodel]
            rfl
          have hsilent : Silent (s.moduleScript settings ⟨names, name⟩ m) := by
            apply silent_bind (Model.ofModule_silent _ m)
            intro model hok
            exact nomatch hmodel.symm.trans hok
          obtain ⟨hsession, hresult⟩ := s.run_of_silent hsilent
          obtain ⟨hemitResult, hemitSession⟩ := emit_eq_run hname settings s
          exact ⟨⟨failure, by rw [hemitResult, hresult, houtcome]⟩, by rw [hemitSession, hsession]⟩

end Session

/-! ### Histories -/

/-- What a session can be asked to do. -/
inductive Request where
  | emit (m : Module)
  /-- From now on the sink has this limit. -/
  | limit (limit : Option Nat)

/-- The request is for a module that is refused. -/
def Request.Refused (names : NameTable) : Request → Prop
  | .emit m => m.Refused names
  | .limit _ => False

instance (names : NameTable) : (r : Request) → Decidable (r.Refused names)
  | .emit m => inferInstanceAs (Decidable (m.Refused names))
  | .limit _ => inferInstanceAs (Decidable False)

/-- A request, the session that it found, and what came of it: the session that it left behind, the
events that were reported and, for a module, its summary or the failure. -/
structure Exchange where
  before : Session
  request : Request
  emission : Emission LogEntry (Option Summary)

namespace Session

variable (names : NameTable) (settings : Settings)

/-- Serves one request. -/
def serve (s : Session) : Request → Emission LogEntry (Option Summary)
  | .emit m =>
    let e := s.emit names settings m
    ⟨e.session, e.log, e.result.map some⟩
  | .limit limit => ⟨s.withLimit limit, [], .ok none⟩

/-- The session after some requests. -/
def afterAll (s : Session) : List Request → Session
  | [] => s
  | r :: rest => (s.serve names settings r).session.afterAll rest

/-- **What comes of some requests, one after another.** -/
def history (s : Session) : List Request → List Exchange
  | [] => []
  | r :: rest => ⟨s, r, s.serve names settings r⟩ :: (s.serve names settings r).session.history rest

variable {names}

/-- What is true of every request in every session is true all through a history. -/
theorem forall_history {P : Exchange → Prop}
    (h : ∀ s r, P ⟨s, r, s.serve names settings r⟩) (s : Session) (requests : List Request) :
    ∀ x ∈ s.history names settings requests, P x := by
  induction requests generalizing s with
  | nil => simp [history]
  | cons r rest ih => exact List.forall_mem_cons.mpr ⟨h s r, ih _⟩

/-- A refused request leaves the session as it is. -/
theorem serve_of_refused {r : Request} (h : r.Refused names) (s : Session) :
    (s.serve names settings r).session = s := by
  cases r with
  | emit m => exact (emit_of_refused h settings s).2
  | limit limit => exact h.elim

/-- Striking the refused modules leaves the session that the requests end in. -/
theorem afterAll_filter (s : Session) (requests : List Request) :
    s.afterAll names settings (requests.filter fun r => ¬ r.Refused names) =
      s.afterAll names settings requests := by
  induction requests generalizing s with
  | nil => rfl
  | cons r rest ih =>
      by_cases hr : r.Refused names
      · rw [List.filter_cons_of_neg (by simpa using hr), ih, afterAll, serve_of_refused settings hr]
      · rw [List.filter_cons_of_pos (by simpa using hr), afterAll, afterAll, ih]

/-- Striking the refused modules leaves the rest of the history. -/
theorem history_filter (s : Session) (requests : List Request) :
    s.history names settings (requests.filter fun r => ¬ r.Refused names) =
      (s.history names settings requests).filter fun x => ¬ x.request.Refused names := by
  induction requests generalizing s with
  | nil => rfl
  | cons r rest ih =>
      by_cases hr : r.Refused names
      · rw [List.filter_cons_of_neg (by simpa using hr), history, serve_of_refused settings hr, ih,
          List.filter_cons_of_neg (by simpa using hr)]
      · rw [List.filter_cons_of_pos (by simpa using hr), history, history, ih,
          List.filter_cons_of_pos (by simpa using hr)]

end Session

/-- **Refused modules leave no trace.**  In every session a refused module is a failure, and the
session stays as it is: its text, its level of indentation, its count of modules and whether its
preamble is in place.  So whatever a session is asked to do, it ends in the same state without the
requests for refused modules, and every other request finds the same session, reports the same
events, ends with the same result and leaves the same session behind. -/
theorem refused_modules_leave_no_trace (names : NameTable) (settings : Settings) (s : Session) :
    (∀ m : Module, m.Refused names →
      (∃ failure, (s.emit names settings m).result = .error failure) ∧
        (s.emit names settings m).session = s) ∧
      ∀ requests : List Request,
        s.afterAll names settings (requests.filter fun r => ¬ r.Refused names) =
            s.afterAll names settings requests ∧
          s.history names settings (requests.filter fun r => ¬ r.Refused names) =
            (s.history names settings requests).filter fun x => ¬ x.request.Refused names := by
  constructor
  · intro m hm
    exact Session.emit_of_refused hm settings s
  · intro requests
    exact ⟨s.afterAll_filter settings requests, s.history_filter settings requests⟩

/-- A session whose sink was full in the middle of a model, and a module with a function in it
between requests that are served. -/
theorem refused_modules_leave_no_trace_halfway :
    let names : NameTable := ⟨["top", "q", "f"]⟩
    let settings : Settings := ⟨true, none⟩
    let s : Session := (Session.start (some 60)).afterAll names settings [.emit (.empty ⟨0⟩)]
    let refused : Module :=
      { Module.empty ⟨0⟩ with
        ports := [.port ⟨1⟩ .input (.bits 1 false)], items := [.function ⟨⟨2⟩, [], []⟩] }
    let requests : List Request :=
      [.limit none, .emit refused, .emit (.empty ⟨0⟩), .emit (.empty ⟨7⟩), .limit (some 50)]
    refused.Refused names ∧
      ((∃ failure, (s.emit names settings refused).result = .error failure) ∧
        (s.emit names settings refused).session = s) ∧
      (requests.filter fun r => ¬ r.Refused names) =
        [.limit none, .emit (.empty ⟨0⟩), .limit (some 50)] ∧
      s.afterAll names settings (requests.filter fun r => ¬ r.Refused names) =
        s.afterAll names settings requests ∧
      s.history names settings (requests.filter fun r => ¬ r.Refused names) =
        (s.history names settings requests).filter fun x => ¬ x.request.Refused names := by
  intro names settings s refused requests
  obtain ⟨hone, hall⟩ := refused_modules_leave_no_trace names settings s
  have hrefused : refused.Refused names := by decide
  exact ⟨hrefused, hone refused hrefused, rfl, hall requests⟩

end HdlSim
