import HdlSim.Event
import HdlSim.Host.Line

/-!
# Scripts

What lowering a construct does is a *script*: the lines it writes, the events it reports and the
marks it sets, in order, and how it ends, with a value or with a failure.  The steps before a
failure stay in the script, because what was written before it stays written.

A script does not depend on where it is carried out; whether the sink takes it is a separate matter.
-/

namespace HdlSim

/-- A point in the work on a module that the session remembers. -/
inductive Mark where
  /-- The module is counted among those with text of their own. -/
  | counted
  /-- The shared preamble is in place. -/
  | preambleShared
deriving DecidableEq

/-- One step of a script. -/
inductive Step where
  | write (command : Command Line)
  | log (event : Event)
  | mark (mark : Mark)

/-- Steps in order, and how they end. -/
structure Script (α : Type) where
  steps : List Step
  outcome : Except Failure α

namespace Script

variable {α β : Type}

/-- The script that does nothing and ends with a value. -/
def done (a : α) : Script α := ⟨[], .ok a⟩

/-- One script after another; the second is not begun if the first fails. -/
def andThen (s : Script α) (next : α → Script β) : Script β :=
  match s.outcome with
  | .ok a =>
    let rest := next a
    ⟨s.steps ++ rest.steps, rest.outcome⟩
  | .error failure => ⟨s.steps, .error failure⟩

instance : Monad Script where
  pure := done
  bind := andThen

instance : LawfulMonad Script := LawfulMonad.mk' Script
  (by
    intro α s
    obtain ⟨steps, outcome⟩ := s
    cases outcome <;> simp [Functor.map, andThen, done])
  (by
    intro α β a f
    simp [bind, pure, andThen, done])
  (by
    intro α β γ s f g
    obtain ⟨steps, outcome⟩ := s
    cases outcome with
    | error failure => rfl
    | ok a =>
      simp only [bind, andThen]
      cases (f a).outcome <;> simp)

instance : MonadLift (Except Failure) Script where
  monadLift outcome := ⟨[], outcome⟩

/-- The script of a single step. -/
def step (s : Step) : Script Unit := ⟨[s], .ok ()⟩

/-- Writes a line. -/
def line (l : Line) : Script Unit := step (.write (.line l))

/-- Writes an empty line. -/
def blank : Script Unit := step (.write .blank)

/-- Writes a line after which a block begins. -/
def enter (l : Line) : Script Unit := step (.write (.enter l))

/-- Ends a block. -/
def leave : Script Unit := step (.write (.leave .close))

/-- Ends a block with a line of its own. -/
def leaveWith (l : Line) : Script Unit := step (.write (.leave l))

/-- Ends a block and begins the next. -/
def turn (l : Line) : Script Unit := step (.write (.turn l))

/-- Reports an event. -/
def log (e : Event) : Script Unit := step (.log e)

/-- Sets a mark. -/
def mark (m : Mark) : Script Unit := step (.mark m)

/-- The script that does nothing and fails. -/
def fail (failure : Failure) : Script α := ⟨[], .error failure⟩

/-- One script for each member of a list, in order. -/
def forEach (xs : List α) (f : α → Script Unit) : Script Unit :=
  match xs with
  | [] => done ()
  | x :: rest => f x >>= fun _ => forEach rest f

/-- Writes some lines. -/
def lines (ls : List Line) : Script Unit := forEach ls line

/-- Writes a documentation as comment lines. -/
def doc (mark : CommentMark) : Option String → Script Unit
  | none => done ()
  | some text => lines ((docTexts text).map (Line.comment mark))

end Script

end HdlSim
