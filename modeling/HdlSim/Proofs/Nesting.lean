import HdlSim.Proofs.Commands
import HdlSim.Proofs.Runs

/-!
# Blocks that end

A script ends only blocks that it has begun itself (`Script.Nests`), and if it succeeds it has ended
them all.  So the level of indentation after a module is the one before it
(`Session.nests_moduleScript`, `Session.after_level`).  The scripts of models leave the marks of the
session alone as well (`Script.Framed`), so that they do nothing but add to its text
(`Session.after_of_framed`).
-/

namespace HdlSim

/-- The level counts the blocks that are open. -/
theorem Command.levelAfter_of_depthAfter {τ : Type} {command : Command τ} {level depth : Nat}
    (h : command.depthAfter level = some depth) : command.levelAfter level = depth := by
  cases command with
  | line text => exact Option.some.inj h
  | blank => exact Option.some.inj h
  | enter text => exact Option.some.inj h
  | leave text =>
      by_cases hzero : level = 0
      · simp [depthAfter, hzero] at h
      · rw [depthAfter, if_neg hzero] at h
        exact Option.some.inj h
  | turn text =>
      by_cases hzero : level = 0
      · simp [depthAfter, hzero] at h
      · rw [depthAfter, if_neg hzero] at h
        obtain rfl := Option.some.inj h
        rw [levelAfter]
        omega

/-- Where no block is ended that is not open, the level counts the blocks. -/
theorem Session.after_level {s : Session} {steps : List Step} {depth : Nat}
    (h : depthAfter s.writer.level steps = some depth) :
    (s.after steps).writer.level = depth := by
  induction steps generalizing s with
  | nil => exact Option.some.inj h
  | cons step rest ih =>
      cases step with
      | write command =>
          obtain ⟨inner, hinner, hrest⟩ := Option.bind_eq_some_iff.mp h
          have hlevel : (s.wrote command).writer.level = inner :=
            Command.levelAfter_of_depthAfter hinner
          apply ih
          rw [hlevel]
          exact hrest
      | log event => exact ih h
      | mark m =>
          apply ih
          rw [remember_writer]
          exact h

open Script

namespace Session

/-- The session with more text. -/
def extend (s : Session) (more : String) : Session :=
  { s with writer := ⟨{ s.writer.sink with text := s.text ++ more }, s.writer.level⟩ }

/-- Steps without marks change nothing in a session but the text and the level. -/
private theorem after_unmarked {s : Session} {steps : List Step} (h : ∀ m, Step.mark m ∉ steps) :
    (s.after steps).modules = s.modules ∧ (s.after steps).preambleShared = s.preambleShared ∧
      (s.after steps).writer.sink.limit = s.writer.sink.limit := by
  induction steps generalizing s with
  | nil => exact ⟨rfl, rfl, rfl⟩
  | cons step rest ih =>
      have hrest : ∀ m, Step.mark m ∉ rest := fun m hm => h m (List.mem_cons_of_mem _ hm)
      cases step with
      | write command => exact ih (s := s.wrote command) hrest
      | log event => exact ih hrest
      | mark m => exact absurd List.mem_cons_self (h m)

/-- A script that stays in its place adds its text to the session, and changes nothing else. -/
theorem after_of_framed {α : Type} {s : Session} {script : Script α} {a : α}
    (h : Framed 0 0 script) (hok : script.outcome = .ok a) : s.after script.steps =
      s.extend (String.ofList (rendered s.writer.level script.steps)) := by
  obtain ⟨hmodules, hshared, hlimit⟩ := after_unmarked (s := s) h.unmarked
  obtain ⟨depth, hdepth, -, hstop⟩ := h.nests s.writer.level
  have hlevel : (s.after script.steps).writer.level = s.writer.level := by
    rw [after_level hdepth, hstop a hok]
    rfl
  have htext := s.after_text script.steps
  generalize s.after script.steps = t at hmodules hshared hlimit hlevel htext ⊢
  obtain ⟨⟨⟨text, limit⟩, level⟩, modules, shared⟩ := t
  simp only [Session.text] at htext
  simp only at hmodules hshared hlimit hlevel
  subst htext hlimit hlevel hmodules hshared
  rfl

end Session

/-- Lines stay in their place. -/
theorem Script.framed_lines (ls : List Line) {n : Nat} : Framed n n (lines ls) := by
  have hmade : Made (fun st => ∀ mark, st ≠ .mark mark) n n (lines ls) := made_lines nofun
  exact hmade.framed fun mark h => h mark rfl

/-! ### Models and modules -/

namespace Model

variable {m : Model} {T : Step → Prop} {n : Nat}

/-- A model is written with the lines for its imports, an empty line behind them, and the commands
for models. -/
theorem made_script {settings : Settings}
    (himport : ∀ path ∈ settings.modulePath, ∀ names, m.importNames = .ok names →
      ∀ name ∈ names, T (.write (.line (.useModule path name))))
    (hblank : T (.write .blank)) (hcode : ∀ st, m.Takes true true true st → T st) :
    Made T n n (m.script settings) := by
  rw [script_eq]
  exact made_bind (made_imports himport hblank) fun _ _ => made_code.mono hcode

/-- **Models.**  The script of a model stays in its place. -/
theorem framed_script (settings : Settings) : Framed n n (m.script settings) := by
  have hmade : Made (fun st => ∀ mark, st ≠ .mark mark) n n (m.script settings) :=
    made_script nofun nofun (by rintro _ h mark rfl; cases h)
  exact hmade.framed fun mark h => h mark rfl

/-- Nothing is written before the items of a module are sorted. -/
theorem made_ofModule (hlog : ∀ event, T (.log event)) (c : Context) (m : Module) :
    Made T n n (Model.ofModule c m) := by
  have hsort : Made T n n (Body.sort c m.items) := by
    unfold Body.sort
    split
    · exact made_lift fun _ _ => made_bind (made_log (hlog _)) fun _ _ => made_fail _
    · exact made_bind (made_log (hlog _)) fun _ _ => made_pure _
  unfold ofModule
  exact made_lift fun _ _ => made_bind hsort fun _ _ => made_lift fun _ _ => made_pure _

end Model

namespace Session

variable {T : Step → Prop} {n : Nat}

/-- There is an empty line between two modules. -/
theorem made_separator (hblank : T (.write .blank)) (s : Session) : Made T n n s.separator := by
  unfold separator
  split
  · exact made_pure ()
  · exact made_blank hblank

/-- The preamble is written with its lines and an empty line behind them. -/
theorem made_preambleScript (hpreamble : ∀ text ∈ preamble, T (.write (.line (.verbatim text))))
    (hblank : T (.write .blank)) (hmark : T (.mark .preambleShared)) (s : Session)
    (settings : Settings) : Made T n n (s.preambleScript settings) := by
  unfold preambleScript
  split
  · refine made_bind (made_lines (List.forall_mem_map.mpr hpreamble)) fun _ _ => ?_
    refine made_bind (made_blank hblank) fun _ _ => ?_
    split
    · exact made_mark hmark
    · exact made_pure ()
  · exact made_pure ()

/-- A module is written with empty lines, the preamble and the commands for its model. -/
theorem made_moduleScript {settings : Settings}
    (hpreamble : ∀ text ∈ preamble, T (.write (.line (.verbatim text))))
    (hblank : T (.write .blank)) (hmark : ∀ mark, T (.mark mark)) (hlog : ∀ event, T (.log event))
    (hscript : ∀ model : Model, Made T n n (model.script settings)) (s : Session) (c : Context)
    (m : Module) : Made T n n (s.moduleScript settings c m) := by
  unfold moduleScript
  exact made_bind (Model.made_ofModule hlog c m) fun model _ =>
    made_bind (made_separator hblank s) fun _ _ => made_bind (made_mark (hmark _)) fun _ _ =>
    made_bind (made_preambleScript hpreamble hblank (hmark _) s settings) fun _ _ => hscript model

/-- **Modules.**  The script of a module ends the blocks that it begins, and no others. -/
theorem nests_moduleScript (s : Session) (settings : Settings) (c : Context) (m : Module)
    {n : Nat} : Nests n n (s.moduleScript settings c m) := by
  have hmade : Made (fun _ => True) n n (s.moduleScript settings c m) :=
    made_moduleScript (fun _ _ => trivial) trivial (fun _ => trivial) (fun _ => trivial)
      (fun _ => Model.made_script (fun _ _ _ _ _ _ => trivial) trivial fun _ _ => trivial) s c m
  exact hmade.nests

end Session

end HdlSim
