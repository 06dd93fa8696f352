import HdlSim.Proofs.Script
import HdlSim.Session

/-!
# The text of a script

What a script writes does not depend on the sink.  `rendered` is the text of its steps at a level
of indentation, and a run that succeeds, in any session, appends exactly this text
(`Session.run_ok`).  A sink without a limit refuses nothing, so there a run ends the way its script
does (`Session.run_unlimited`).
-/

namespace HdlSim

namespace Sink

/-- Characters that were all taken stand at the end of the text. -/
theorem put_ok {s t : Sink} {cs : List Char} (h : s.put cs = (t, true)) :
    t = { s with text := s.text ++ String.ofList cs } := by
  induction cs generalizing s with
  | nil =>
      obtain ⟨rfl, -⟩ : s = t ∧ True := by simpa [put] using h
      simp
  | cons c rest ih =>
      rw [put] at h
      split at h
      · rw [ih h]
        have htext : s.text.push c ++ String.ofList rest = s.text ++ String.ofList (c :: rest) := by
          rw [← String.toList_inj]
          simp
        rw [htext]
      · simp at h

/-- A sink without a limit takes everything. -/
theorem put_unlimited {s : Sink} (hs : s.limit = none) (cs : List Char) :
    (s.put cs).2 = true := by
  induction cs generalizing s with
  | nil => rfl
  | cons c rest ih =>
      have hfits : s.fits c = true := by simp [fits, hs]
      rw [put, if_pos hfits]
      exact ih hs

end Sink

namespace Command

/-- The level of indentation after a command. -/
def levelAfter {τ : Type} (level : Nat) : Command τ → Nat
  | .line _ => level
  | .blank => level
  | .enter _ => level + 1
  | .leave _ => level - 1
  | .turn _ => level - 1 + 1

/-- The characters that a command writes at a level of indentation. -/
def chars (level : Nat) : Command String → List Char
  | .line text => indented level text
  | .blank => ['\n']
  | .enter text => indented level text
  | .leave text => indented (level - 1) text
  | .turn text => indented (level - 1) text

end Command

/-- The text of some steps, begun at a level of indentation. -/
def rendered (level : Nat) : List Step → List Char
  | [] => []
  | .write command :: rest =>
    (command.map Line.text).chars level ++ rendered (command.levelAfter level) rest
  | .log _ :: rest => rendered level rest
  | .mark _ :: rest => rendered level rest

namespace Writer

/-- A line that the sink accepts is added to its text. -/
theorem line_ok {w v : Writer} {text : String} (h : w.line text = (v, true)) :
    v = { w with sink := { w.sink with
      text := w.sink.text ++ String.ofList (indented w.level text) } } := by
  cases hput : w.sink.put (indented w.level text) with
  | mk sink ok =>
      simp only [line, hput, Prod.mk.injEq] at h
      obtain ⟨rfl, rfl⟩ := h
      rw [Sink.put_ok hput]

/-- The level rises after a line that was accepted. -/
theorem deeperIf_ok {p : Writer × Bool} {v : Writer} (h : deeperIf p = (v, true)) :
    ∃ u, p = (u, true) ∧ v = u.deeper := by
  obtain ⟨u, ok⟩ := p
  cases ok with
  | false => simp [deeperIf] at h
  | true => exact ⟨u, rfl, by simpa [deeperIf] using h.symm⟩

/-- A command that is carried out appends its characters and sets its level. -/
theorem exec_ok {w v : Writer} {c : Command String} (h : w.exec c = (v, true)) :
    v = ⟨{ w.sink with text := w.sink.text ++ String.ofList (c.chars w.level) },
      c.levelAfter w.level⟩ := by
  cases c with
  | line text => exact line_ok h
  | blank =>
      have hline : w.line "" = (v, true) := h
      rw [line_ok hline]
      rfl
  | enter text =>
      obtain ⟨u, hu, rfl⟩ := deeperIf_ok h
      rw [line_ok hu]
      rfl
  | leave text =>
      have hline : w.shallower.line text = (v, true) := h
      rw [line_ok hline]
      rfl
  | turn text =>
      obtain ⟨u, hu, rfl⟩ := deeperIf_ok h
      rw [line_ok hu]
      rfl

/-- A sink without a limit accepts every command. -/
theorem exec_unlimited {w : Writer} (hw : w.sink.limit = none) (c : Command String) :
    ∃ v, w.exec c = (v, true) ∧ v.sink.limit = none := by
  have hline : ∀ u : Writer, u.sink.limit = none → ∀ text, (u.line text).2 = true :=
    fun u hu text => Sink.put_unlimited hu _
  have hdone : (w.exec c).2 = true := by
    cases c with
    | line text => exact hline w hw text
    | blank => exact hline w hw ""
    | enter text =>
        have hmid : w.line text = ((w.line text).1, true) := Prod.ext rfl (hline w hw text)
        rw [exec, hmid, deeperIf]
    | leave text => exact hline w.shallower hw text
    | turn text =>
        have hmid : w.shallower.line text = ((w.shallower.line text).1, true) :=
          Prod.ext rfl (hline w.shallower hw text)
        rw [exec, hmid, deeperIf]
  have hexec : w.exec c = ((w.exec c).1, true) := Prod.ext rfl hdone
  refine ⟨(w.exec c).1, hexec, ?_⟩
  rw [exec_ok hexec]
  exact hw

end Writer

/-- The level after a command does not depend on its text. -/
@[simp] theorem Command.levelAfter_map {σ τ : Type} (f : σ → τ) (level : Nat) (c : Command σ) :
    (c.map f).levelAfter level = c.levelAfter level := by
  cases c <;> rfl

namespace Session

/-- Marks leave the text alone. -/
@[simp] theorem remember_writer (s : Session) (m : Mark) : (s.remember m).writer = s.writer := by
  cases m <;> rfl

/-- **Successful runs.**  Steps that are all carried out append their text. -/
theorem perform_ok {s t : Session} {steps : List Step} {log : List Event}
    (h : s.perform steps = (t, log, true)) :
    t.text = s.text ++ String.ofList (rendered s.writer.level steps) := by
  induction steps generalizing s log with
  | nil =>
      obtain ⟨rfl, -⟩ : s = t ∧ [] = log := by simpa [perform] using h
      simp [rendered]
  | cons step rest ih =>
      cases step with
      | write command =>
          rw [perform] at h
          split at h
          · rename_i writer hexec
            have hrest := ih h
            rw [Writer.exec_ok hexec] at hrest
            simpa [text, rendered, String.append_assoc] using hrest
          · simp at h
      | log event =>
          simp only [perform, Prod.mk.injEq] at h
          obtain ⟨rfl, -, hok⟩ := h
          have hrest : s.perform rest = ((s.perform rest).1, (s.perform rest).2.1, true) :=
            Prod.ext rfl (Prod.ext rfl hok)
          exact ih hrest
      | mark m =>
          have hrest := ih h
          simpa [text, rendered] using hrest

/-- In a session whose sink has no limit every step is carried out. -/
theorem perform_unlimited {s : Session} (hs : s.writer.sink.limit = none) (steps : List Step) :
    (s.perform steps).2.2 = true := by
  induction steps generalizing s with
  | nil => rfl
  | cons step rest ih =>
      cases step with
      | write command =>
          obtain ⟨w, hexec, hw⟩ := Writer.exec_unlimited hs (command.map Line.text)
          rw [perform, hexec]
          exact ih hw
      | log event => exact ih hs
      | mark m =>
          apply ih
          rw [remember_writer]
          exact hs

/-- A run that ends with a value has carried out its whole script. -/
theorem run_ok {α : Type} {s : Session} {script : Script α} {a : α}
    (h : (s.run script).result = .ok a) :
    script.outcome = .ok a ∧
      (s.run script).session.text =
        s.text ++ String.ofList (rendered s.writer.level script.steps) := by
  obtain ⟨⟨t, log, ok⟩, hrun⟩ : ∃ r, s.perform script.steps = r := ⟨_, rfl⟩
  simp only [run, hrun] at h ⊢
  cases ok with
  | false => simp at h
  | true => exact ⟨by simpa using h, perform_ok hrun⟩

/-- Without a limit, a run ends the way its script does. -/
theorem run_unlimited {α : Type} {s : Session} (hs : s.writer.sink.limit = none)
    (script : Script α) : (s.run script).result = script.outcome := by
  simp [run, perform_unlimited hs]

/-- A module whose name is known is written by its script. -/
theorem emit_eq_run {names : NameTable} {m : Module} {name : String}
    (hname : names.resolve? m.name = some name) (settings : Settings) (session : Session) :
    (session.emit names settings m).result =
        (session.run (session.moduleScript settings ⟨names, name⟩ m)).result ∧
      (session.emit names settings m).session =
        (session.run (session.moduleScript settings ⟨names, name⟩ m)).session := by
  unfold emit
  simp only [hname, and_self]

/-- Without a limit a module is written if its script succeeds. -/
theorem emit_unlimited {names : NameTable} {m : Module} {name : String} {session : Session}
    (hname : names.resolve? m.name = some name) (hlimit : session.writer.sink.limit = none)
    (settings : Settings) : (session.emit names settings m).result =
      (session.moduleScript settings ⟨names, name⟩ m).outcome := by
  rw [(emit_eq_run hname settings session).1, run_unlimited hlimit]

end Session

end HdlSim
