import HdlSim.Proofs.Indentation
import HdlSim.Proofs.Levels

/-!
# Text further in

A session that was left inside of some blocks writes the same lines as one at the outermost level,
each of them further in.  A script ends only blocks that it has begun itself, so no line of it would
have to stand outside of these blocks (`Command.levelOf_add`), and no line of it has a line feed
inside, so what is indented is what a reader takes for a line (`rendered_add`).

Main statement: `text_is_shifted`.
-/

namespace HdlSim

open Script

/-! ### Texts with more indentation -/

namespace Text

/-- Characters with spaces in front of every line that is not empty.  A line begins at the first of
them only if they are `fresh`. -/
def indentLines (spaces : Nat) (fresh : Bool) : List Char → List Char
  | [] => []
  | c :: rest =>
    if c = '\n' then c :: indentLines spaces true rest
    else (if fresh then List.replicate spaces ' ' else []) ++ c :: indentLines spaces false rest

/-- **The text with spaces in front of every line that is not empty.** -/
def shifted (spaces : Nat) (text : String) : String :=
  String.ofList (indentLines spaces true text.toList)

example : shifted 4 "a \x7b\n\n    b\n\x7d\n" = "    a \x7b\n\n        b\n    \x7d\n" := by decide

/-- A line break is followed by a fresh line. -/
theorem indentLines_newline (spaces : Nat) (fresh : Bool) (rest : List Char) :
    indentLines spaces fresh ('\n' :: rest) = '\n' :: indentLines spaces true rest := by
  rw [indentLines, if_pos rfl]

/-- The rest of a line stays as it is. -/
theorem indentLines_within {line : List Char} (h : '\n' ∉ line) (spaces : Nat) (rest : List Char) :
    indentLines spaces false (line ++ '\n' :: rest) =
      line ++ '\n' :: indentLines spaces true rest := by
  induction line with
  | nil => exact indentLines_newline spaces false rest
  | cons c line ih =>
      obtain ⟨hc, hline⟩ : c ≠ '\n' ∧ '\n' ∉ line := by simpa [eq_comm] using h
      rw [List.cons_append, indentLines, if_neg hc, ih hline]
      rfl

/-- A line that is not empty moves as a whole. -/
theorem indentLines_line {line : List Char} (hne : line ≠ []) (h : '\n' ∉ line) (spaces : Nat)
    (rest : List Char) : indentLines spaces true (line ++ '\n' :: rest) =
      List.replicate spaces ' ' ++ line ++ '\n' :: indentLines spaces true rest := by
  obtain ⟨c, cs, rfl⟩ := List.exists_cons_of_ne_nil hne
  obtain ⟨hc, hcs⟩ : c ≠ '\n' ∧ '\n' ∉ cs := by simpa [eq_comm] using h
  rw [List.cons_append, indentLines, if_neg hc, indentLines_within hcs, if_pos rfl,
    List.append_assoc]
  rfl

/-- **One line**, written further in. -/
theorem indentLines_indented {text : String} (h : OneLine text) (base level : Nat)
    (rest : List Char) : indentLines (4 * base) true (indented level text ++ rest) =
      indented (base + level) text ++ indentLines (4 * base) true rest := by
  unfold indented
  split
  · exact indentLines_newline _ _ rest
  · rename_i hempty
    have htext : text.toList ≠ [] := by
      intro hnil
      rw [String.toList_eq_nil_iff.mp hnil] at hempty
      exact hempty rfl
    have hline : '\n' ∉ List.replicate (4 * level) ' ' ++ text.toList := by
      intro hmem
      rcases List.mem_append.mp hmem with hspace | hchar
      · exact absurd (List.eq_of_mem_replicate hspace) (by decide)
      · exact h hchar
    have hne : List.replicate (4 * level) ' ' ++ text.toList ≠ [] := by simp [htext]
    rw [List.append_assoc, List.singleton_append, indentLines_line hne hline, Nat.mul_add,
      ← List.replicate_append_replicate]
    simp only [List.append_assoc, List.singleton_append]

end Text

open Text

/-! ### Scripts -/

/-- The line of a command stands as far inside of further blocks as it does without them. -/
theorem Command.levelOf_add {c : Command Line} {depth inner : Nat}
    (h : c.depthAfter depth = some inner) (base : Nat) :
    c.levelOf (base + depth) = base + c.levelOf depth := by
  unfold levelOf
  split
  · rename_i hclosing
    have hpos := pos_of_depthAfter h hclosing
    omega
  · rfl

/-- **The text of steps inside of further blocks.**  The induction is on the steps, with the number
of blocks that they have open at the time. -/
theorem rendered_add {steps : List Step} {depth final : Nat}
    (hlines : ∀ c, Step.write c ∈ steps → OneLine c.written.text)
    (h : depthAfter depth steps = some final) (base : Nat) :
    rendered (base + depth) steps = indentLines (4 * base) true (rendered depth steps) := by
  induction steps generalizing depth with
  | nil => rfl
  | cons step rest ih =>
      have hrest : ∀ c, Step.write c ∈ rest → OneLine c.written.text :=
        fun c hc => hlines c (List.mem_cons_of_mem _ hc)
      cases step with
      | write command =>
          obtain ⟨inner, hinner, hafter⟩ := Option.bind_eq_some_iff.mp h
          have hline : OneLine command.written.text := hlines command List.mem_cons_self
          rw [rendered, rendered, Command.chars_eq_indented, Command.chars_eq_indented,
            indentLines_indented hline, Command.levelOf_add hinner, Command.levelAfter_add hinner,
            Command.levelAfter_of_depthAfter hinner, ih hrest hafter]
      | log event => exact ih hrest h
      | mark m => exact ih hrest h

/-! ### Sessions -/

/-- The session with its writer at the outermost level. -/
def Session.outermost (s : Session) : Session := { s with writer := { s.writer with level := 0 } }

/-- **The same, further in.**  What was undertaken in a session and what was undertaken at the
outermost level have added the same text, in the session with four spaces more for each of its
levels in front of every line that is not empty.  They have reported the same and ended in the same
way; if that was a success, the session is back at its level. -/
structure Shifted {ε α : Type} (s : Session) (inner outer : Emission ε α) : Prop where
  text : ∃ text, outer.session.text = s.text ++ text ∧
    inner.session.text = s.text ++ shifted (4 * s.writer.level) text
  result : inner.result = outer.result
  log : inner.log = outer.log
  level : ∀ a, inner.result = .ok a → inner.session.writer.level = s.writer.level

namespace Session

/-- **One run.**  A script that is run inside blocks writes its text shifted by their level. -/
theorem run_shifted {α : Type} {script : Script α} (hnests : Nests 0 0 script)
    (hlines : Each (fun c => OneLine c.written.text) script) {s : Session}
    (hlimit : s.writer.sink.limit = none) : Shifted s (s.run script) (s.outermost.run script) := by
  have hlimitOuter : s.outermost.writer.sink.limit = none := hlimit
  have hdone := perform_unlimited hlimit script.steps
  have hdoneOuter := perform_unlimited hlimitOuter script.steps
  refine ⟨⟨String.ofList (rendered 0 script.steps), ?_, ?_⟩, ?_, ?_, ?_⟩
  · show (s.outermost.perform script.steps).1.text = _
    rw [perform_eq_after hdoneOuter, after_text]
    rfl
  · obtain ⟨final, hdepth, -, -⟩ := hnests 0
    have htext : rendered s.writer.level script.steps = _ :=
      rendered_add hlines hdepth s.writer.level
    show (s.perform script.steps).1.text = _
    rw [perform_eq_after hdone, after_text, htext, shifted, String.toList_ofList]
  · rw [run_unlimited hlimit, run_unlimited hlimitOuter]
  · show (s.perform script.steps).2.1 = (s.outermost.perform script.steps).2.1
    rw [perform_events hdone, perform_events hdoneOuter]
  · exact (run_levelKept hnests s).succeeded

/-- No line of the script of a module has a line feed inside. -/
theorem oneLine_moduleScript {settings : Settings}
    (hpath : ∀ path ∈ settings.modulePath, OneLine path) (s : Session) (c : Context) (m : Module) :
    Each (fun c => OneLine c.written.text) (s.moduleScript settings c m) := by
  have hblank : OneLine (Command.written .blank).text := by decide
  have hmade : Made (Step.Writes fun c => OneLine c.written.text) 0 0
      (s.moduleScript settings c m) := by
    refine made_moduleScript (fun text htext => (tidy_preamble text htext).oneLine) hblank
      (fun _ => trivial) (fun _ => trivial) (fun model => ?_) s c m
    refine (Model.made_shaped hpath).mono fun st hst => ?_
    cases st with
    | write c => exact hst.oneLine
    | log event => exact trivial
    | mark mark => exact trivial
  exact hmade.each fun _ hc => hc

/-- **One module.**  A module that is written inside blocks is shifted by their level. -/
theorem emit_shifted {s : Session} (hlimit : s.writer.sink.limit = none) {settings : Settings}
    (hpath : ∀ path ∈ settings.modulePath, OneLine path) (names : NameTable) (m : Module) :
    Shifted s (s.emit names settings m) (s.outermost.emit names settings m) := by
  unfold emit
  cases names.resolve? m.name with
  | none => exact ⟨⟨"", by simp [text, outermost], by simp [shifted, indentLines]⟩, rfl, rfl, nofun⟩
  | some name =>
      have hrun := run_shifted (s.nests_moduleScript settings ⟨names, name⟩ m)
        (oneLine_moduleScript hpath s ⟨names, name⟩ m) hlimit
      have hscript : s.outermost.moduleScript settings ⟨names, name⟩ m =
        s.moduleScript settings ⟨names, name⟩ m := rfl
      simp only [hscript]
      refine ⟨hrun.text, hrun.result, ?_, hrun.level⟩
      simp only [hrun.log, hrun.result]

end Session

/-- **Emission commutes with indentation.**  In every session whose sink refuses nothing, however
deep inside of blocks it was left, every module adds what it would add at the outermost level,
further in.  The same is true of the statements of a process. -/
theorem text_is_shifted {s : Session} (hlimit : s.writer.sink.limit = none) (names : NameTable)
    {settings : Settings} (hpath : ∀ path ∈ settings.modulePath, OneLine path) (m : Module) :
    Shifted s (s.emit names settings m) (s.outermost.emit names settings m) ∧
      ∀ (site : Site) (body : List Stmt),
        Shifted s (s.run (site.block body)) (s.outermost.run (site.block body)) := by
  refine ⟨Session.emit_shifted hlimit hpath names m, fun site body => ?_⟩
  have hlines : Each (fun c => OneLine c.written.text) (site.block body) :=
    (site.each_statements body).mono fun _ hc => Line.oneLine_of_parts hc.oneLine_parts
  exact Session.run_shifted (site.framed_statements body).nests hlines hlimit

/-- A session whose sink was full inside of a block, and with a sink that refuses nothing since. -/
theorem text_is_shifted_halfway :
    let names : NameTable := ⟨["top", "en"]⟩
    let settings : Settings := ⟨false, some "crate::models"⟩
    let s := (Session.start (some 20)).afterAll names settings [.emit (.empty ⟨0⟩), .limit none]
    let m : Module := { Module.empty ⟨0⟩ with ports := [.port ⟨1⟩ .input (.bits 1 false)] }
    let site : Site := ⟨⟨names, "top"⟩, .ofBody m.ports (.ofItems []), .process, "process"⟩
    let body : List Stmt := [.ifElse [⟨.name ⟨1⟩, [.null]⟩] none]
    s.writer.level = 1 ∧ s.writer.sink.limit = none ∧
      (∀ path ∈ settings.modulePath, OneLine path) ∧
      Shifted s (s.emit names settings m) (s.outermost.emit names settings m) ∧
      Shifted s (s.run (site.block body)) (s.outermost.run (site.block body)) := by
  intro names settings s m site body
  have hlimit : s.writer.sink.limit = none := rfl
  have hpath : ∀ path ∈ settings.modulePath, OneLine path := by decide
  obtain ⟨hemit, hblock⟩ := text_is_shifted hlimit names hpath m
  exact ⟨by decide +kernel, hlimit, hpath, hemit, hblock site body⟩

end HdlSim
