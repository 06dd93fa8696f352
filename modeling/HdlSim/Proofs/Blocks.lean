import HdlSim.Proofs.Lines

/-!
# What scripts are made of

Two things are told of a script part by part: which steps it takes, and that it ends only blocks
that it has begun itself.  `Made` says both, so the parts of a model have to be gone through once
only.  Whatever is known of the steps alone follows from it: the commands that are given
(`Made.each`), and that no marks are set (`Made.framed`).
-/

namespace HdlSim

open Text

/-- The number of open blocks after a command, unless it ends a block where none is open. -/
def Command.depthAfter {τ : Type} (depth : Nat) : Command τ → Option Nat
  | .line _ => some depth
  | .blank => some depth
  | .enter _ => some (depth + 1)
  | .leave _ => if depth = 0 then none else some (depth - 1)
  | .turn _ => if depth = 0 then none else some depth

/-- The number of open blocks after some steps, unless one of them ends a block where none is
open. -/
def depthAfter (depth : Nat) : List Step → Option Nat
  | [] => some depth
  | .write command :: rest => (command.depthAfter depth).bind fun inner => depthAfter inner rest
  | .log _ :: rest => depthAfter depth rest
  | .mark _ :: rest => depthAfter depth rest

/-- The depth after two runs in a row. -/
theorem depthAfter_append (depth : Nat) (front back : List Step) :
    depthAfter depth (front ++ back) =
      (depthAfter depth front).bind fun inner => depthAfter inner back := by
  induction front generalizing depth with
  | nil => rfl
  | cons step rest ih =>
      cases step with
      | write command =>
          simp only [List.cons_append, depthAfter]
          cases command.depthAfter depth with
          | none => rfl
          | some inner => exact ih inner
      | log event => exact ih depth
      | mark m => exact ih depth

/-- The step is not a command, or it is one with the property. -/
def Step.Writes (P : Command Line → Prop) : Step → Prop
  | .write command => P command
  | .log _ => True
  | .mark _ => True

namespace Script

variable {α β : Type} {P : Command Line → Prop} {T : Step → Prop} {n start mid stop : Nat}

/-- Every command of the script has the property. -/
def Each (P : Command Line → Prop) (s : Script α) : Prop := ∀ c, Step.write c ∈ s.steps → P c

/-- A weaker property holds of every command as well. -/
theorem Each.mono {Q : Command Line → Prop} {s : Script α} (h : Each P s) (hPQ : ∀ c, P c → Q c) :
    Each Q s :=
  fun c hc => hPQ c (h c hc)

/-- What holds of every command holds of the lines that are written. -/
theorem Each.written {Q : Line → Prop} {s : Script α} (h : Each P s)
    (hPQ : ∀ c, P c → Q c.written) : ∀ l ∈ writtenLines s.steps, Q l := by
  intro l hl
  obtain ⟨step, hstep, hl⟩ := List.mem_filterMap.mp hl
  cases step with
  | write command =>
      obtain rfl := Option.some.inj hl
      exact hPQ command (h command hstep)
  | log event => cases hl
  | mark m => cases hl

/-- **Nesting.**  Of the blocks that are open the script may end `start`, and no others.  If it
succeeds, `stop` blocks are open instead of these. -/
def Nests (start stop : Nat) (s : Script α) : Prop :=
  ∀ base, ∃ depth, depthAfter (base + start) s.steps = some depth ∧ base ≤ depth ∧
    ∀ a, s.outcome = .ok a → depth = base + stop

/-- Two scripts in a row nest if the second begins where the first ends. -/
private theorem nests_bind {s : Script α} {f : α → Script β} (hs : Nests start mid s)
    (hf : ∀ a, s.outcome = .ok a → Nests mid stop (f a)) : Nests start stop (s >>= f) := by
  intro base
  obtain ⟨depth, hdepth, hbase, hmid⟩ := hs base
  obtain ⟨steps, outcome⟩ := s
  cases outcome with
  | error failure => exact ⟨depth, hdepth, hbase, fun _ h => nomatch h⟩
  | ok a =>
      obtain rfl := hmid a rfl
      obtain ⟨last, hlast, hover, hstop⟩ := hf a rfl base
      refine ⟨last, ?_, hover, hstop⟩
      show depthAfter (base + start) (steps ++ (f a).steps) = some last
      rw [depthAfter_append, hdepth]
      exact hlast

/-- The script stays in its place: it ends only blocks that are its own, and sets no marks. -/
structure Framed (start stop : Nat) (s : Script α) : Prop where
  nests : Nests start stop s
  unmarked : ∀ m, Step.mark m ∉ s.steps

/-- **What a script is made of.**  It takes no steps but these, and it nests. -/
structure Made (T : Step → Prop) (start stop : Nat) (s : Script α) : Prop where
  nests : Nests start stop s
  steps : ∀ st ∈ s.steps, T st

namespace Made

variable {s : Script α}

/-- A weaker property holds of every step as well. -/
theorem mono {U : Step → Prop} (h : Made T start stop s) (hTU : ∀ st, T st → U st) :
    Made U start stop s :=
  ⟨h.nests, fun st hst => hTU st (h.steps st hst)⟩

/-- What holds of every step holds of every command. -/
theorem each (h : Made T start stop s) (hT : ∀ c, T (.write c) → P c) : Each P s :=
  fun c hc => hT c (h.steps _ hc)

/-- A script whose steps are no marks stays in its place. -/
theorem framed (h : Made T start stop s) (hT : ∀ m, ¬ T (.mark m)) : Framed start stop s :=
  ⟨h.nests, fun m hm => hT m (h.steps _ hm)⟩

end Made

/-- Two scripts in a row are made of the steps of both. -/
theorem made_bind {s : Script α} {f : α → Script β} (hs : Made T start mid s)
    (hf : ∀ a, s.outcome = .ok a → Made T mid stop (f a)) : Made T start stop (s >>= f) := by
  refine ⟨nests_bind hs.nests fun a ha => (hf a ha).nests, fun st hst => ?_⟩
  have hsteps := hs.steps st
  obtain ⟨steps, outcome⟩ := s
  cases outcome with
  | error failure => exact hsteps hst
  | ok a =>
      rcases List.mem_append.mp hst with hfront | hback
      · exact hsteps hfront
      · exact (hf a rfl).steps st hback

/-- Nothing is done but to go on or to fail. -/
theorem made_outcome (x : Except Failure α) : Made T n n (⟨[], x⟩ : Script α) :=
  ⟨fun base => ⟨base + n, rfl, Nat.le_add_right base n, fun _ _ => rfl⟩, fun _ hst => nomatch hst⟩

/-- A computation in front adds no step. -/
theorem made_lift {x : Except Failure α} {f : α → Script β}
    (hf : ∀ a, x = .ok a → Made T start stop (f a)) :
    Made T start stop ((liftM x : Script α) >>= f) :=
  made_bind (made_outcome x) hf

/-- A script that only returns has no steps. -/
theorem made_pure (a : α) : Made T n n (pure a : Script α) := made_outcome _

/-- A script that fails has no steps. -/
theorem made_fail (failure : Failure) : Made T n n (fail failure : Script α) := made_outcome _

/-- One step, with the depth behind it. -/
theorem made_step {st : Step} (h : T st)
    (hdepth : ∀ base, depthAfter (base + start) [st] = some (base + stop)) :
    Made T start stop (step st) := by
  refine ⟨fun base => ?_, fun _ hst => List.mem_singleton.mp hst ▸ h⟩
  exact ⟨base + stop, hdepth base, Nat.le_add_right base stop, fun _ _ => rfl⟩

/-- An event does not change the depth. -/
theorem made_log {event : Event} (h : T (.log event)) : Made T n n (log event) :=
  made_step h fun _ => rfl

/-- A mark does not change the depth. -/
theorem made_mark {m : Mark} (h : T (.mark m)) : Made T n n (mark m) := made_step h fun _ => rfl

/-- A line does not change the depth. -/
theorem made_line {l : Line} (h : T (.write (.line l))) : Made T n n (line l) :=
  made_step h fun _ => rfl

/-- An empty line does not change the depth. -/
theorem made_blank (h : T (.write .blank)) : Made T n n blank := made_step h fun _ => rfl

/-- A line that begins a block is followed by one level more. -/
theorem made_enter {l : Line} (h : T (.write (.enter l))) : Made T n (n + 1) (enter l) :=
  made_step h fun _ => rfl

/-- A line between two blocks ends one and begins another. -/
theorem made_turn {l : Line} (h : T (.write (.turn l))) : Made T (n + 1) (n + 1) (turn l) :=
  made_step h fun _ => rfl

/-- A line that ends a block is followed by one level less. -/
theorem made_leaveWith {l : Line} (h : T (.write (.leave l))) : Made T (n + 1) n (leaveWith l) :=
  made_step h fun _ => rfl

/-- The end of a block is followed by one level less. -/
theorem made_leave (h : T (.write (.leave .close))) : Made T (n + 1) n leave := made_leaveWith h

/-- A script for each member of a list. -/
theorem made_forEach {xs : List α} {f : α → Script Unit} (h : ∀ x ∈ xs, Made T n n (f x)) :
    Made T n n (forEach xs f) := by
  induction xs with
  | nil => exact made_pure ()
  | cons x xs ih =>
      obtain ⟨hx, hxs⟩ := List.forall_mem_cons.mp h
      exact made_bind hx fun _ _ => ih hxs

/-- A script for each member of a list, with their values. -/
theorem made_mapM {xs : List α} {f : α → Script β} (h : ∀ x ∈ xs, Made T n n (f x)) :
    Made T n n (xs.mapM f) := by
  induction xs with
  | nil =>
      rw [List.mapM_nil]
      exact made_pure []
  | cons x xs ih =>
      obtain ⟨hx, hxs⟩ := List.forall_mem_cons.mp h
      rw [List.mapM_cons]
      exact made_bind hx fun _ _ => made_bind (ih hxs) fun _ _ => made_pure _

/-- Lines one after the other. -/
theorem made_lines {ls : List Line} (h : ∀ l ∈ ls, T (.write (.line l))) : Made T n n (lines ls) :=
  made_forEach fun l hl => made_line (h l hl)

/-- Comments are lines that are one line each. -/
theorem made_doc {mark : CommentMark}
    (h : ∀ text, OneLine text → T (.write (.line (.comment mark text)))) (doc : Option String) :
    Made T n n (Script.doc mark doc) := by
  cases doc with
  | none => exact made_pure ()
  | some doc =>
      refine made_lines fun l hl => ?_
      obtain ⟨text, htext, rfl⟩ := List.mem_map.mp hl
      exact h text (oneLine_docTexts doc text htext)

/-- A block of commands. -/
theorem made_block {l : Line} {body : Script Unit} (hl : T (.write (.enter l)))
    (hbody : Made T (n + 1) (n + 1) body) (hclose : T (.write (.leave .close))) :
    Made T n n (enter l >>= fun _ => body >>= fun _ => leave) :=
  made_bind (made_enter hl) fun _ _ => made_bind hbody fun _ _ => made_leave hclose

/-- A block: its first line, what is in it, and its end. -/
def enclosed (l : Line) (body : Script α) : Script α := do
  enter l
  let a ← body
  leave
  return a

/-- A block ends as its body does. -/
@[simp] theorem outcome_enclosed (l : Line) (body : Script α) :
    (enclosed l body).outcome = body.outcome := by
  obtain ⟨steps, outcome⟩ := body
  cases outcome <;> rfl

/-- A block is at the same depth before and after it. -/
theorem made_enclosed {l : Line} {body : Script α} (hl : T (.write (.enter l)))
    (hbody : Made T (n + 1) (n + 1) body) (hclose : T (.write (.leave .close))) :
    Made T n n (enclosed l body) :=
  made_bind (made_enter hl) fun _ _ => made_bind hbody fun _ _ =>
    made_bind (made_leave hclose) fun _ _ => made_pure _

end Script

end HdlSim
