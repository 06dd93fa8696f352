import HdlSim.Proofs.Brackets
import HdlSim.Proofs.Refusal

/-!
# The level of indentation through failures

A refused write leaves the level as it was or, where a block was to be ended, one further out.  In
neither case does it fall below the level at which the work began, because a script ends only blocks
that it has begun itself (`Script.Nests`).

`Session.calls` lists what the writer is told in a run, up to a call that is refused
(`Session.perform_leads`).  One call that stays `Within` the blocks around it leaves the writer
there (`Call.le_after`).  Every call of a run stays within them (`Session.calls_within`), and so
does the writer that the run leaves behind (`Leads.le`).

Main statement: `sessions_keep_level`.
-/

namespace HdlSim

open Script

/-! ### One call -/

/-- Whether a command ends a block does not depend on its text. -/
@[simp] private theorem Command.closing_map {σ τ : Type} (f : σ → τ) (c : Command σ) :
    (c.map f).closing = c.closing := by
  cases c <;> rfl

/-- Only a block that is open is ended. -/
theorem Command.pos_of_depthAfter {τ : Type} {c : Command τ} {depth inner : Nat}
    (h : c.depthAfter depth = some inner) (hclosing : c.closing = true) : 0 < depth := by
  cases c with
  | line text => cases hclosing
  | blank => cases hclosing
  | enter text => cases hclosing
  | leave text => exact Nat.pos_of_ne_zero fun hzero => by simp [depthAfter, hzero] at h
  | turn text => exact Nat.pos_of_ne_zero fun hzero => by simp [depthAfter, hzero] at h

/-- A command does the same to the level inside of further blocks. -/
theorem Command.levelAfter_add {τ : Type} {c : Command τ} {depth inner : Nat}
    (h : c.depthAfter depth = some inner) (base : Nat) :
    c.levelAfter (base + depth) = base + inner := by
  have hpos := pos_of_depthAfter h
  have hlevel := levelAfter_of_depthAfter h
  cases c with
  | line text => exact congrArg (base + ·) hlevel
  | blank => exact congrArg (base + ·) hlevel
  | enter text => exact congrArg (base + ·) hlevel
  | leave text =>
      have hdepth := hpos rfl
      rw [levelAfter] at hlevel ⊢
      omega
  | turn text =>
      have hdepth := hpos rfl
      rw [levelAfter] at hlevel ⊢
      omega

/-- A refused command leaves the level as it was, or one further out if it was to end a block. -/
theorem Writer.exec_refused {w v : Writer} {c : Command String} (h : w.exec c = (v, false)) :
    v.level = if c.closing then w.level - 1 else w.level := by
  have hdeeper : ∀ {p : Writer × Bool}, deeperIf p = (v, false) → v = p.1 := by
    rintro ⟨u, ok⟩ hp
    cases ok with
    | true => simp [deeperIf] at hp
    | false => simpa [deeperIf] using hp.symm
  cases c with
  | line text => exact congrArg (fun p => p.1.level) h.symm
  | blank => exact congrArg (fun p => p.1.level) h.symm
  | enter text =>
      rw [hdeeper h]
      rfl
  | leave text => exact congrArg (fun p => p.1.level) h.symm
  | turn text =>
      rw [hdeeper h]
      rfl

/-- A call of the writer: the writer that it finds, and what the writer is told. -/
structure Call where
  writer : Writer
  command : Command Line

namespace Call

/-- The writer that a call leaves behind, whether it was refused or not. -/
def after (call : Call) : Writer := (call.writer.exec (call.command.map Line.text)).1

/-- The call stays within some blocks: they are all open, and none of them is ended. -/
structure Within (blocks : Nat) (call : Call) : Prop where
  inside : blocks ≤ call.writer.level
  ends : call.command.closing = true → blocks < call.writer.level

/-- **One call.**  A call that is made inside blocks leaves them open. -/
theorem le_after {blocks : Nat} {call : Call} (h : call.Within blocks) :
    blocks ≤ call.after.level := by
  obtain ⟨hinside, hends⟩ := h
  unfold after
  cases hexec : call.writer.exec (call.command.map Line.text) with
  | mk writer ok =>
      cases ok with
      | true =>
          show blocks ≤ writer.level
          rw [Writer.exec_ok hexec]
          show blocks ≤ (call.command.map Line.text).levelAfter call.writer.level
          rw [Command.levelAfter_map]
          cases hcommand : call.command with
          | line text => exact hinside
          | blank => exact hinside
          | enter text => exact Nat.le_succ_of_le hinside
          | leave text =>
              have hopen := hends (by rw [hcommand]; rfl)
              rw [Command.levelAfter]
              omega
          | turn text =>
              have hopen := hends (by rw [hcommand]; rfl)
              rw [Command.levelAfter]
              omega
      | false =>
          show blocks ≤ writer.level
          rw [Writer.exec_refused hexec, Command.closing_map]
          split
          · rename_i hclosing
            have hopen := hends hclosing
            omega
          · exact hinside

end Call

/-! ### The calls of a run -/

/-- **Calls lead from one writer to another.**  Each of them finds the writer that the one before it
has left behind. -/
inductive Leads : Writer → List Call → Writer → Prop where
  | nil (w : Writer) : Leads w [] w
  | cons {w v : Writer} {command : Command Line} {rest : List Call}
      (h : Leads (Call.mk w command).after rest v) : Leads w (⟨w, command⟩ :: rest) v

/-- Calls that stay within some blocks lead to no writer outside of them. -/
theorem Leads.le {w v : Writer} {calls : List Call} (h : Leads w calls v) {blocks : Nat}
    (hcalls : ∀ call ∈ calls, call.Within blocks) (hw : blocks ≤ w.level) : blocks ≤ v.level := by
  induction h with
  | nil w => exact hw
  | cons _ ih =>
      obtain ⟨hcall, hrest⟩ := List.forall_mem_cons.mp hcalls
      exact ih hrest (Call.le_after hcall)

namespace Session

/-- **The calls of a run**, up to the first one that is refused. -/
def calls (s : Session) : List Step → List Call
  | [] => []
  | .write command :: rest =>
    ⟨s.writer, command⟩ ::
      match s.writer.exec (command.map Line.text) with
      | (writer, true) => calls { s with writer := writer } rest
      | (_, false) => []
  | .log _ :: rest => s.calls rest
  | .mark mark :: rest => (s.remember mark).calls rest

/-- The calls of a run lead to the writer that it leaves behind. -/
theorem perform_leads (s : Session) (steps : List Step) :
    Leads s.writer (s.calls steps) (s.perform steps).1.writer := by
  induction steps generalizing s with
  | nil => exact .nil s.writer
  | cons step rest ih =>
      cases step with
      | write command =>
          have hafter : (Call.mk s.writer command).after =
              (s.writer.exec (command.map Line.text)).1 := rfl
          rw [perform, calls]
          refine .cons ?_
          rw [hafter]
          cases s.writer.exec (command.map Line.text) with
          | mk writer ok =>
              cases ok with
              | true => exact ih { s with writer := writer }
              | false => exact .nil writer
      | log event => exact ih s
      | mark m =>
          have hrest := ih (s.remember m)
          rw [remember_writer] at hrest
          exact hrest

/-- **Every call of a run** stays within the blocks around it.  The induction is on the steps, with
the number of blocks that they have open at the time. -/
theorem calls_within {s : Session} {steps : List Step} {blocks depth final : Nat}
    (hlevel : s.writer.level = blocks + depth) (h : depthAfter depth steps = some final) :
    ∀ call ∈ s.calls steps, call.Within blocks := by
  induction steps generalizing s depth with
  | nil => simp [calls]
  | cons step rest ih =>
      cases step with
      | write command =>
          obtain ⟨inner, hinner, hrest⟩ := Option.bind_eq_some_iff.mp h
          have hfirst : (Call.mk s.writer command).Within blocks := by
            refine ⟨?_, fun hclosing => ?_⟩
            · show blocks ≤ s.writer.level
              omega
            · have hpos := Command.pos_of_depthAfter hinner hclosing
              show blocks < s.writer.level
              omega
          rw [calls]
          refine List.forall_mem_cons.mpr ⟨hfirst, ?_⟩
          cases hexec : s.writer.exec (command.map Line.text) with
          | mk writer ok =>
              cases ok with
              | false => simp
              | true =>
                  have hwriter : writer.level = blocks + inner := by
                    rw [Writer.exec_ok hexec, Command.levelAfter_map, hlevel]
                    exact Command.levelAfter_add hinner blocks
                  exact ih hwriter hrest
      | log event => exact ih hlevel h
      | mark m =>
          rw [calls]
          refine ih ?_ h
          rw [remember_writer]
          exact hlevel

end Session

/-! ### Levels that are kept -/

/-- **The level is kept.**  Calls of the writer have led from a session to an emission.  They have
ended no block that was open before, so none of them was made at the outermost level to end one.
The level is the same as before if the work has succeeded, and no further out if it has failed. -/
structure LevelKept {ε α : Type} (s : Session) (calls : List Call) (e : Emission ε α) : Prop where
  leads : Leads s.writer calls e.session.writer
  ends : ∀ call ∈ calls, call.command.closing = true → s.writer.level < call.writer.level
  succeeded : ∀ a, e.result = .ok a → e.session.writer.level = s.writer.level
  failed : ∀ failure, e.result = .error failure → s.writer.level ≤ e.session.writer.level

namespace Session

/-- **One run.**  A script that ends only its own blocks keeps the level of the session. -/
theorem run_levelKept {α : Type} {script : Script α} (h : Nests 0 0 script) (s : Session) :
    LevelKept s (s.calls script.steps) (s.run script) := by
  obtain ⟨depth, hdepth, -, -⟩ := h 0
  have hlevel : s.writer.level = s.writer.level + 0 := rfl
  have hwithin : ∀ call ∈ s.calls script.steps, call.Within s.writer.level :=
    calls_within hlevel hdepth
  have hleads : Leads s.writer (s.calls script.steps) (s.run script).session.writer :=
    s.perform_leads script.steps
  refine ⟨hleads, fun call hcall => (hwithin call hcall).ends, fun a ha => ?_, fun _ _ => ?_⟩
  · obtain ⟨last, hlast, -, hstop⟩ := h s.writer.level
    show (s.perform script.steps).1.writer.level = s.writer.level
    rw [perform_eq_after (perform_of_run_ok ha), after_level hlast, hstop a (run_ok ha).1]
    rfl
  · exact hleads.le hwithin (Nat.le_refl _)

/-- The calls of the writer that a module comes to. -/
def emitCalls (names : NameTable) (settings : Settings) (s : Session) (m : Module) : List Call :=
  match names.resolve? m.name with
  | none => []
  | some name => s.calls (s.moduleScript settings ⟨names, name⟩ m).steps

/-- **One module.**  A module that is written keeps the level of the session. -/
theorem emit_levelKept (names : NameTable) (settings : Settings) (s : Session) (m : Module) :
    LevelKept s (s.emitCalls names settings m) (s.emit names settings m) := by
  unfold emit emitCalls
  cases names.resolve? m.name with
  | none =>
      refine ⟨.nil _, fun _ hcall => ?_, fun _ ha => ?_, fun _ _ => Nat.le_refl _⟩
      · cases hcall
      · cases ha
  | some name =>
      have hrun := run_levelKept (s.nests_moduleScript settings ⟨names, name⟩ m) s
      exact ⟨hrun.leads, hrun.ends, hrun.succeeded, hrun.failed⟩

/-- **One request for a module.**  It keeps the level of the session, as the module does. -/
theorem serve_levelKept (names : NameTable) (settings : Settings) (s : Session) (m : Module) :
    LevelKept s (s.emitCalls names settings m) (s.serve names settings (.emit m)) := by
  have hemit := s.emit_levelKept names settings m
  refine ⟨hemit.leads, hemit.ends, fun a ha => ?_, fun failure hfailure => ?_⟩
  · cases hresult : (s.emit names settings m).result with
    | ok summary => exact hemit.succeeded summary hresult
    | error failure => simp [serve, hresult, Except.map] at ha
  · cases hresult : (s.emit names settings m).result with
    | ok summary => simp [serve, hresult, Except.map] at hfailure
    | error cause => exact hemit.failed cause hresult

end Session

/-- **The level of indentation never underflows.**  Whatever modules a session is asked to write,
and however the limit on its sink is changed in between, every module keeps the level, also where it
fails or the sink refuses a write.  So do the statements of a process, in every session. -/
theorem sessions_keep_level (names : NameTable) (settings : Settings) (limit : Option Nat)
    (requests : List Request) :
    (∀ x ∈ (Session.start limit).history names settings requests, ∀ m, x.request = .emit m →
      LevelKept x.before (x.before.emitCalls names settings m) x.emission) ∧
      ∀ (s : Session) (site : Site) (body : List Stmt),
        LevelKept s (s.calls (site.block body).steps) (s.run (site.block body)) := by
  constructor
  · refine Session.forall_history settings (fun s r m hr => ?_) _ requests
    obtain rfl : r = .emit m := hr
    exact s.serve_levelKept names settings m
  · intro s site body
    exact Session.run_levelKept (site.framed_statements body).nests s

/-- The sink is full inside of the first block.  With more room the next module begins and ends a
block one level further in, before the sink is full again. -/
theorem sessions_keep_level_halfway :
    let names : NameTable := ⟨["top"]⟩
    let settings : Settings := ⟨false, none⟩
    let m : Module := .empty ⟨0⟩
    let requests : List Request := [.emit m, .limit (some 100), .emit m]
    let history := (Session.start (some 20)).history names settings requests
    history.map (fun x => (x.before.writer.level, x.emission.session.writer.level,
        (x.before.emitCalls names settings m).countP (·.command.closing))) =
        [(0, 1, 0), (1, 1, 0), (1, 1, 1)] ∧
      ∃ x ∈ history, x.request = .emit m ∧
        LevelKept x.before (x.before.emitCalls names settings m) x.emission := by
  intro names settings m requests history
  obtain ⟨hkept, -⟩ := sessions_keep_level names settings (some 20) requests
  refine ⟨by decide +kernel, ?_⟩
  let s := (Session.start (some 20)).afterAll names settings [.emit m, .limit (some 100)]
  have hlast : ⟨s, .emit m, s.serve names settings (.emit m)⟩ ∈ history :=
    .tail _ (.tail _ (.head _))
  exact ⟨_, hlast, rfl, hkept _ hlast m rfl⟩

end HdlSim
