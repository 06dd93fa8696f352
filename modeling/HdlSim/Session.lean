import HdlSim.Model

/-!
# Sessions

A session writes models one after another into one sink.  It remembers how many modules it has
begun to write and whether the shared preamble is in place, and it goes on after a failure from
where the failure left it.
-/

namespace HdlSim

/-- A writer, and what has been written so far. -/
structure Session where
  writer : Writer
  /-- The number of modules with text of their own. -/
  modules : Nat
  /-- Whether the preamble that all further models share is in place. -/
  preambleShared : Bool

/-- What an undertaking leaves behind: the session, what was reported, and how it ended. -/
structure Emission (ε α : Type) where
  session : Session
  log : List ε
  result : Except Failure α

/-- The lines with which a file of models begins. -/
def preamble : List String :=
  ["// Simulation model generated by aion_simgen. Do not edit.",
   "#![allow(dead_code, non_camel_case_types, non_snake_case, unused_imports, unused_parens)]",
   "",
   "use aion_sim_rt::model::\x7bconnect_sim_port, SimModel, SimProxy, SimUnit, Trigger\x7d;",
   "use aion_sim_rt::sim::\x7bsim_eval_cond, Cond, Simulator\x7d;",
   "use aion_sim_rt::value::\x7b",
   "    array3t, bits, bits3t, boolean, define_enum3t, int, string, ternary, HdlType, HdlValue,",
   "\x7d;"]

/-- The preamble as a text. -/
def preambleText : String := String.join (preamble.map fun line => line ++ "\n")

namespace Session

/-- A session that has written nothing, with a limit on its sink. -/
def start (limit : Option Nat) : Session := ⟨Writer.start limit, 0, false⟩

/-- The session with another limit on its sink. -/
def withLimit (s : Session) (limit : Option Nat) : Session :=
  { s with writer := s.writer.withLimit limit }

/-- The text written so far. -/
def text (s : Session) : String := s.writer.sink.text

/-- Remembers a mark. -/
def remember (s : Session) : Mark → Session
  | .counted => { s with modules := s.modules + 1 }
  | .preambleShared => { s with preambleShared := true }

/-- Carries out steps up to the first write that is refused.  Gives the events among the steps
carried out, and whether all were. -/
def perform (s : Session) : List Step → Session × List Event × Bool
  | [] => (s, [], true)
  | .write command :: rest =>
    match s.writer.exec (command.map Line.text) with
    | (writer, true) => perform { s with writer := writer } rest
    | (writer, false) => ({ s with writer := writer }, [], false)
  | .log event :: rest =>
    let (s, log, ok) := s.perform rest
    (s, event :: log, ok)
  | .mark mark :: rest => (s.remember mark).perform rest

/-- Carries out a script; a refused write ends it as a failure of its own. -/
def run {α : Type} (s : Session) (script : Script α) : Emission Event α :=
  let (s, log, ok) := s.perform script.steps
  ⟨s, log, if ok then script.outcome else .error .refusedWrite⟩

/-- The preamble, where the settings ask for it and it is not in place already.  Models in one file
share it. -/
def preambleScript (s : Session) (settings : Settings) : Script Unit :=
  if settings.sharedPreamble && !s.preambleShared then do
    Script.lines (preamble.map Line.verbatim)
    Script.blank
    if settings.modulePath.isNone then Script.mark .preambleShared else pure ()
  else pure ()

/-- The empty line between a module and the one before it. -/
def separator (s : Session) : Script Unit :=
  if s.modules = 0 then pure () else Script.blank

/-- The script for a module: an empty line between it and the module before, the preamble, and its
model. -/
def moduleScript (s : Session) (settings : Settings) (c : Context) (m : Module) :
    Script Summary := do
  let model ← Model.ofModule c m
  s.separator
  Script.mark .counted
  s.preambleScript settings
  model.script settings

/-- The event that ends the work on a module. -/
def closingEvent : Except Failure Summary → Event
  | .ok summary =>
    .loweredModule summary.interfaces.length summary.processes.length summary.units.length
  | .error failure => .failed failure

/-- Writes the model of a module. -/
def emit (names : NameTable) (settings : Settings) (s : Session) (m : Module) :
    Emission LogEntry Summary :=
  match names.resolve? m.name with
  | none =>
    let failure :=
      Failure.defect ("#" ++ Text.natText m.name.index.toNat) "module name" .unresolvedIdent
    ⟨s, [⟨none, .failed failure⟩], .error failure⟩
  | some name =>
    let e := s.run (s.moduleScript settings ⟨names, name⟩ m)
    ⟨e.session, (e.log ++ [closingEvent e.result]).map (LogEntry.mk (some name)), e.result⟩

/-- Writes the models of some modules up to the first that fails. -/
def emitAll (names : NameTable) (settings : Settings) (s : Session) :
    List Module → Emission LogEntry (List Summary)
  | [] => ⟨s, [], .ok []⟩
  | m :: rest =>
    let e := s.emit names settings m
    match e.result with
    | .error failure => ⟨e.session, e.log, .error failure⟩
    | .ok summary =>
      let more := emitAll names settings e.session rest
      ⟨more.session, e.log ++ more.log, more.result.map (summary :: ·)⟩

end Session

/-- Writes the model of one module into a sink without a limit. -/
def lowerModule (names : NameTable) (settings : Settings) (m : Module) :
    Emission LogEntry Summary :=
  (Session.start none).emit names settings m

/-- Writes the models of a design into one sink. -/
def lowerDesign (names : NameTable) (settings : Settings) (limit : Option Nat)
    (modules : List Module) : Emission LogEntry (List Summary) :=
  let e := (Session.start limit).emitAll names settings modules
  match e.result with
  | .error _ => e
  | .ok summaries => { e with log := e.log ++ [⟨none, .loweredDesign summaries.length⟩] }

end HdlSim
