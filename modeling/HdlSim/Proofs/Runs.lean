import HdlSim.Proofs.Rendering

/-!
# What a run leaves behind

Carrying out steps is putting their text into the sink, and nothing else decides whether they are
carried out (`Session.perform_put`).  If they all are, the session that they leave behind is known
without the sink: it is the one `after` them (`Session.perform_eq_after`).  What they report is then
known as well (`Session.perform_events`).
-/

namespace HdlSim

namespace Sink

/-- What a sink has taken stays where it is. -/
theorem put_isPrefix (s : Sink) (cs : List Char) : s.text.toList <+: (s.put cs).1.text.toList := by
  induction cs generalizing s with
  | nil => exact List.prefix_rfl
  | cons c rest ih =>
      rw [put]
      split
      · have hpush : s.text.toList <+: (s.text.push c).toList := by
          rw [String.toList_push]
          exact List.prefix_append _ _
        exact hpush.trans (ih { s with text := s.text.push c })
      · exact List.prefix_rfl

/-- Writing leaves the limit of a sink alone. -/
private theorem put_limit (s : Sink) (cs : List Char) : (s.put cs).1.limit = s.limit := by
  induction cs generalizing s with
  | nil => rfl
  | cons c rest ih =>
      rw [put]
      split
      · exact ih { s with text := s.text.push c }
      · rfl

end Sink

/-- A command puts its characters into the sink, and is refused if they are. -/
theorem Writer.exec_put (w : Writer) (c : Command String) :
    ((w.exec c).1.sink, (w.exec c).2) = w.sink.put (c.chars w.level) := by
  have hdeeper : ∀ p : Writer × Bool, (deeperIf p).1.sink = p.1.sink ∧ (deeperIf p).2 = p.2 := by
    rintro ⟨u, ok⟩
    cases ok <;> exact ⟨rfl, rfl⟩
  cases c with
  | line text => rfl
  | blank => rfl
  | enter text =>
      obtain ⟨hsink, hok⟩ := hdeeper (w.line text)
      rw [exec, hsink, hok]
      rfl
  | leave text => rfl
  | turn text =>
      obtain ⟨hsink, hok⟩ := hdeeper (w.shallower.line text)
      rw [exec, hsink, hok]
      rfl

/-- The event that a step reports, if it reports one. -/
def Step.event? : Step → Option Event
  | .log event => some event
  | .write _ => none
  | .mark _ => none

/-- The events that steps report, in order. -/
def events (steps : List Step) : List Event := steps.filterMap Step.event?

/-- The events of two runs in a row. -/
theorem events_append (front back : List Step) :
    events (front ++ back) = events front ++ events back :=
  List.filterMap_append

namespace Session

/-- **Runs and the sink.**  Steps put their text into the sink, and they are all carried out exactly
if the sink takes all of it. -/
theorem perform_put (s : Session) (steps : List Step) :
    ((s.perform steps).1.writer.sink, (s.perform steps).2.2) =
      s.writer.sink.put (rendered s.writer.level steps) := by
  induction steps generalizing s with
  | nil => rfl
  | cons step rest ih =>
      cases step with
      | write command =>
          have hput := s.writer.exec_put (command.map Line.text)
          rw [perform, rendered, Sink.put_append, ← hput]
          cases hexec : s.writer.exec (command.map Line.text) with
          | mk writer ok =>
              cases ok with
              | false => rfl
              | true =>
                  have hlevel : writer.level = command.levelAfter s.writer.level := by
                    rw [Writer.exec_ok hexec, Command.levelAfter_map]
                  have hrest := ih { s with writer := writer }
                  rw [hlevel] at hrest
                  exact hrest
      | log event => exact ih s
      | mark m =>
          have hrest := ih (s.remember m)
          rw [remember_writer] at hrest
          exact hrest

/-- The session after a command that the sink has taken. -/
def wrote (s : Session) (command : Command Line) : Session :=
  let text := String.ofList ((command.map Line.text).chars s.writer.level)
  { s with writer :=
    ⟨{ s.writer.sink with text := s.writer.sink.text ++ text },
      command.levelAfter s.writer.level⟩ }

/-- The session after some steps have all been carried out. -/
def after (s : Session) : List Step → Session
  | [] => s
  | .write command :: rest => (s.wrote command).after rest
  | .log _ :: rest => s.after rest
  | .mark m :: rest => (s.remember m).after rest

/-- The session after two runs in a row. -/
theorem after_append (s : Session) (front back : List Step) :
    s.after (front ++ back) = (s.after front).after back := by
  induction front generalizing s with
  | nil => rfl
  | cons step rest ih =>
      cases step with
      | write command => exact ih (s.wrote command)
      | log event => exact ih s
      | mark m => exact ih (s.remember m)

/-- The text after some steps has theirs at its end. -/
theorem after_text (s : Session) (steps : List Step) :
    (s.after steps).text = s.text ++ String.ofList (rendered s.writer.level steps) := by
  induction steps generalizing s with
  | nil => simp [after, rendered]
  | cons step rest ih =>
      cases step with
      | write command =>
          rw [after, ih, rendered, String.ofList_append, ← String.append_assoc]
          rfl
      | log event => exact ih s
      | mark m =>
          rw [after, ih, remember_writer, rendered]
          rw [text, remember_writer]
          rfl

/-- The limit of the sink has no part in what the steps do. -/
theorem after_withLimit (s : Session) (limit : Option Nat) (steps : List Step) :
    (s.withLimit limit).after steps = (s.after steps).withLimit limit := by
  induction steps generalizing s with
  | nil => rfl
  | cons step rest ih =>
      cases step with
      | write command => exact ih (s.wrote command)
      | log event => exact ih s
      | mark m =>
          have hremember : (s.withLimit limit).remember m = (s.remember m).withLimit limit := by
            cases m <;> rfl
          rw [after, after, hremember]
          exact ih (s.remember m)

/-- **Complete runs.**  Steps that are all carried out leave the session behind that is after
them. -/
theorem perform_eq_after {s : Session} {steps : List Step} (h : (s.perform steps).2.2 = true) :
    (s.perform steps).1 = s.after steps := by
  induction steps generalizing s with
  | nil => rfl
  | cons step rest ih =>
      cases step with
      | write command =>
          rw [perform] at h ⊢
          cases hexec : s.writer.exec (command.map Line.text) with
          | mk writer ok =>
              rw [hexec] at h
              cases ok with
              | false => cases h
              | true =>
                  have hwriter := Writer.exec_ok hexec
                  rw [Command.levelAfter_map] at hwriter
                  rw [after, wrote, ← hwriter]
                  exact ih h
      | log event => exact ih h
      | mark m => exact ih h

/-- A run that ends with a value has carried out all of its steps. -/
theorem perform_of_run_ok {α : Type} {s : Session} {script : Script α} {a : α}
    (h : (s.run script).result = .ok a) : (s.perform script.steps).2.2 = true := by
  cases hok : (s.perform script.steps).2.2 with
  | true => rfl
  | false => simp [run, hok] at h

/-- Steps that are all carried out have reported their events. -/
theorem perform_events {s : Session} {steps : List Step} (h : (s.perform steps).2.2 = true) :
    (s.perform steps).2.1 = events steps := by
  induction steps generalizing s with
  | nil => rfl
  | cons step rest ih =>
      cases step with
      | write command =>
          rw [perform] at h ⊢
          cases hexec : s.writer.exec (command.map Line.text) with
          | mk writer ok =>
              rw [hexec] at h
              cases ok with
              | false => cases h
              | true => exact ih h
      | log event => exact congrArg (event :: ·) (ih h)
      | mark m => exact ih h

/-- Steps leave the limit of the sink alone. -/
private theorem perform_limit (s : Session) (steps : List Step) :
    (s.perform steps).1.writer.sink.limit = s.writer.sink.limit := by
  have hput := congrArg (fun p => p.1.limit) (s.perform_put steps)
  exact hput.trans (Sink.put_limit _ _)

private theorem perform_isPrefix (s : Session) (steps : List Step) :
    s.text.toList <+: (s.perform steps).1.text.toList := by
  have hput := congrArg (fun p => p.1.text) (s.perform_put steps)
  have hprefix := Sink.put_isPrefix s.writer.sink (rendered s.writer.level steps)
  rw [← hput] at hprefix
  exact hprefix

/-- A module leaves the limit of the sink alone. -/
theorem emit_limit (s : Session) (names : NameTable) (settings : Settings) (m : Module) :
    (s.emit names settings m).session.writer.sink.limit = s.writer.sink.limit := by
  unfold emit
  cases names.resolve? m.name with
  | none => rfl
  | some name => exact s.perform_limit _

private theorem emit_isPrefix (s : Session) (names : NameTable) (settings : Settings) (m : Module) :
    s.text.toList <+: (s.emit names settings m).session.text.toList := by
  unfold emit
  cases names.resolve? m.name with
  | none => exact List.prefix_rfl
  | some name => exact s.perform_isPrefix _

/-- Modules only add to the text. -/
theorem emitAll_isPrefix (s : Session) (names : NameTable) (settings : Settings)
    (modules : List Module) :
    s.text.toList <+: (s.emitAll names settings modules).session.text.toList := by
  induction modules generalizing s with
  | nil => exact List.prefix_rfl
  | cons m rest ih =>
      have hfirst := s.emit_isPrefix names settings m
      rw [emitAll]
      split
      · exact hfirst
      · exact hfirst.trans (ih _)

end Session

/-- The report at the end of a design touches neither the session nor the result. -/
theorem lowerDesign_session (names : NameTable) (settings : Settings) (limit : Option Nat)
    (modules : List Module) : (lowerDesign names settings limit modules).session =
      ((Session.start limit).emitAll names settings modules).session := by
  unfold lowerDesign
  dsimp only
  split <;> rfl

/-- A design ends as the session in which its modules are written. -/
theorem lowerDesign_result (names : NameTable) (settings : Settings) (limit : Option Nat)
    (modules : List Module) : (lowerDesign names settings limit modules).result =
      ((Session.start limit).emitAll names settings modules).result := by
  unfold lowerDesign
  dsimp only
  split <;> rfl

end HdlSim
