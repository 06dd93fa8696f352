import HdlSim.Script

/-!
# Scripts that succeed

What a compound script does is known from its parts.  There are two views of it.  `Yields` records
the steps of a script that succeeds together with its value, and a sequence yields exactly the steps
of its parts in order.  `outcome` forgets the steps; it turns sequencing of scripts into sequencing
of results that may be failures.  Scripts are equal if their parts are (`bind_congr_of_ok`).
-/

namespace HdlSim

/-- A sequence of results succeeds when both of its parts do. -/
theorem Except.bind_eq_ok_iff {ε α β : Type} {x : Except ε α} {f : α → Except ε β} {b : β} :
    (x >>= f) = .ok b ↔ ∃ a, x = .ok a ∧ f a = .ok b := by
  cases x with
  | error e => simp [bind, Except.bind]
  | ok a => simp [bind, Except.bind]

/-- A computation that only returns has the value it returns. -/
@[simp] theorem Except.pure_eq_ok_iff {ε α : Type} {a b : α} :
    (pure a : Except ε α) = .ok b ↔ a = b := by
  simp [pure, Except.pure]

/-- A computation that fails has no value. -/
@[simp] theorem Except.throw_ne_ok {ε α : Type} {e : ε} {b : α} :
    (throw e : Except ε α) = .ok b ↔ False := by
  simp [throw, throwThe, MonadExceptOf.throw]

/-- A list of results is the list of their values when each of them is a value. -/
theorem Except.mapM_eq_ok_iff {ε α β : Type} {f : α → Except ε β} {xs : List α} {ys : List β} :
    xs.mapM f = .ok ys ↔ xs.map f = ys.map .ok := by
  induction xs generalizing ys with
  | nil => cases ys <;> simp
  | cons x xs ih =>
      rw [List.mapM_cons, Except.bind_eq_ok_iff]
      simp only [Except.bind_eq_ok_iff, Except.pure_eq_ok_iff, ih]
      cases ys with
      | nil => simp
      | cons y ys => simp

/-- What can be told of each value can be told of the list. -/
theorem Except.map_of_mapM {ε α β γ : Type} {f : α → Except ε β} {g : β → γ} {k : α → γ}
    {xs : List α} {ys : List β} (h : xs.mapM f = .ok ys)
    (hk : ∀ x y, f x = .ok y → g y = k x) : ys.map g = xs.map k := by
  rw [Except.mapM_eq_ok_iff] at h
  induction xs generalizing ys with
  | nil =>
      obtain rfl : ys = [] := by simpa using h.symm
      rfl
  | cons x xs ih =>
      cases ys with
      | nil => simp at h
      | cons y ys =>
          obtain ⟨hx, hxs⟩ := List.cons.inj h
          rw [List.map_cons, List.map_cons, hk x y hx, ih hxs]

/-- Every value of a list of results is the value of one of them. -/
theorem Except.exists_of_mem_mapM {ε α β : Type} {f : α → Except ε β} {xs : List α} {ys : List β}
    (h : xs.mapM f = .ok ys) {y : β} (hy : y ∈ ys) : ∃ x ∈ xs, f x = .ok y := by
  have hmem : Except.ok y ∈ xs.map f := by
    rw [Except.mapM_eq_ok_iff.mp h]
    exact List.mem_map_of_mem hy
  exact List.mem_map.mp hmem

/-- A choice that respects a change of the members can be made before the change. -/
theorem filterMap_map_comm {α β : Type} {f : α → Option β} {v : α → α} {u : β → β}
    (h : ∀ x, f (v x) = (f x).map u) (xs : List α) :
    (xs.map v).filterMap f = (xs.filterMap f).map u := by
  rw [List.filterMap_map, List.map_filterMap]
  exact congrArg (List.filterMap · xs) (funext h)

/-- A partial function that is total on the members of a list gives all their values. -/
theorem Option.mapM_eq_some_map {α β : Type} {f : α → Option β} {g : α → β} {xs : List α}
    (h : ∀ x ∈ xs, f x = some (g x)) : xs.mapM f = some (xs.map g) := by
  induction xs with
  | nil => rfl
  | cons x xs ih =>
      obtain ⟨hx, hxs⟩ := List.forall_mem_cons.mp h
      simp [List.mapM_cons, hx, ih hxs]

/-- To go through a changed list is to go through the list and change each member on the way. -/
theorem mapM_map_congr {α β γ : Type} {μ : Type → Type} [Monad μ] [LawfulMonad μ] {xs : List α}
    {u : α → β} {f : β → μ γ} {g : α → μ γ} (h : ∀ x ∈ xs, f (u x) = g x) :
    (xs.map u).mapM f = xs.mapM g := by
  induction xs with
  | nil => rfl
  | cons x xs ih =>
      obtain ⟨hx, hxs⟩ := List.forall_mem_cons.mp h
      rw [List.map_cons, List.mapM_cons, List.mapM_cons, hx, ih hxs]

namespace Script

variable {α β : Type}

/-- The script succeeds with a value, after these steps. -/
def Yields (s : Script α) (steps : List Step) (a : α) : Prop :=
  s = ⟨steps, .ok a⟩

/-- A script whose outcome is a value yields it. -/
theorem yields_of_outcome {s : Script α} {a : α} (h : s.outcome = .ok a) :
    s.Yields s.steps a := by
  unfold Yields
  rw [← h]

/-- **Sequencing.**  The steps of a sequence that succeeds are those of its parts, in order. -/
theorem yields_bind_iff {s : Script α} {f : α → Script β} {steps : List Step} {b : β} :
    (s >>= f).Yields steps b ↔
      ∃ a front back, s.Yields front a ∧ (f a).Yields back b ∧ steps = front ++ back := by
  obtain ⟨front, outcome⟩ := s
  cases outcome with
  | error failure =>
      constructor
      · intro h
        exact absurd (congrArg Script.outcome h) (by simp [bind, andThen])
      · rintro ⟨a, _, _, h, _⟩
        exact absurd (congrArg Script.outcome h) (by simp)
  | ok a =>
      constructor
      · intro h
        have hsteps : front ++ (f a).steps = steps := congrArg Script.steps h
        have houtcome : (f a).outcome = .ok b := congrArg Script.outcome h
        exact ⟨a, front, (f a).steps, rfl, yields_of_outcome houtcome, hsteps.symm⟩
      · rintro ⟨a', front', back, h, hback, rfl⟩
        obtain ⟨rfl, rfl⟩ : front = front' ∧ a = a' := by
          simpa [Yields] using h
        unfold Yields at hback ⊢
        simp [bind, andThen, hback]

/-- Sequencing behind a script that has no value of its own. -/
theorem yields_then_iff {s : Script Unit} {f : Unit → Script β} {steps : List Step} {b : β} :
    (s >>= f).Yields steps b ↔
      ∃ front back, s.Yields front () ∧ (f ()).Yields back b ∧ steps = front ++ back := by
  rw [yields_bind_iff]
  constructor
  · rintro ⟨⟨⟩, front, back, h⟩
    exact ⟨front, back, h⟩
  · rintro ⟨front, back, h⟩
    exact ⟨(), front, back, h⟩

/-- A computation inside of a script takes no steps. -/
@[simp] theorem yields_lift_iff {x : Except Failure α} {a : α} {steps : List Step} :
    (liftM x : Script α).Yields steps a ↔ steps = [] ∧ x = .ok a := by
  simp [liftM, monadLift, MonadLift.monadLift, Yields, eq_comm]

/-- Sequencing behind a result that is not a script of its own. -/
theorem yields_lift_bind_iff {x : Except Failure α} {f : α → Script β} {steps : List Step}
    {b : β} :
    ((liftM x : Script α) >>= f).Yields steps b ↔ ∃ a, x = .ok a ∧ (f a).Yields steps b := by
  rw [yields_bind_iff]
  constructor
  · rintro ⟨a, front, back, hlift, hf, rfl⟩
    obtain ⟨rfl, hx⟩ := yields_lift_iff.mp hlift
    exact ⟨a, hx, hf⟩
  · rintro ⟨a, hx, hf⟩
    exact ⟨a, [], steps, yields_lift_iff.mpr ⟨rfl, hx⟩, hf, rfl⟩

/-- A script that only returns takes no steps. -/
@[simp] theorem yields_pure_iff {a b : α} {steps : List Step} :
    (pure a : Script α).Yields steps b ↔ steps = [] ∧ a = b := by
  simp [pure, done, Yields, eq_comm]

/-- A script that is done takes no steps. -/
@[simp] theorem yields_done_iff {a b : α} {steps : List Step} :
    (done a).Yields steps b ↔ steps = [] ∧ a = b := yields_pure_iff

/-- A script that fails yields nothing. -/
@[simp] theorem yields_fail_iff {failure : Failure} {a : α} {steps : List Step} :
    (fail failure : Script α).Yields steps a ↔ False := by
  simp [fail, Yields]

/-- A single step yields itself. -/
@[simp] theorem yields_step_iff {s : Step} {u : Unit} {steps : List Step} :
    (step s).Yields steps u ↔ steps = [s] := by
  simp [step, Yields, eq_comm]

/-- A line is written as one step. -/
@[simp] theorem yields_line_iff {l : Line} {u : Unit} {steps : List Step} :
    (line l).Yields steps u ↔ steps = [.write (.line l)] := yields_step_iff

/-- An empty line is written as one step. -/
@[simp] theorem yields_blank_iff {u : Unit} {steps : List Step} :
    blank.Yields steps u ↔ steps = [.write .blank] := yields_step_iff

/-- The line that begins a block is written as one step. -/
@[simp] theorem yields_enter_iff {l : Line} {u : Unit} {steps : List Step} :
    (enter l).Yields steps u ↔ steps = [.write (.enter l)] := yields_step_iff

/-- The end of a block is written as one step. -/
@[simp] theorem yields_leave_iff {u : Unit} {steps : List Step} :
    leave.Yields steps u ↔ steps = [.write (.leave .close)] := yields_step_iff

/-- The line that ends a block is written as one step. -/
@[simp] theorem yields_leaveWith_iff {l : Line} {u : Unit} {steps : List Step} :
    (leaveWith l).Yields steps u ↔ steps = [.write (.leave l)] := yields_step_iff

/-- The line between two blocks is written as one step. -/
@[simp] theorem yields_turn_iff {l : Line} {u : Unit} {steps : List Step} :
    (turn l).Yields steps u ↔ steps = [.write (.turn l)] := yields_step_iff

/-- An event is reported as one step. -/
@[simp] theorem yields_log_iff {e : Event} {u : Unit} {steps : List Step} :
    (log e).Yields steps u ↔ steps = [.log e] := yields_step_iff

/-- A mark is set as one step. -/
@[simp] theorem yields_mark_iff {m : Mark} {u : Unit} {steps : List Step} :
    (mark m).Yields steps u ↔ steps = [.mark m] := yields_step_iff

/-- Sequencing behind a single step. -/
theorem yields_step_then_iff {st : Step} {f : Unit → Script β} {steps : List Step} {b : β} :
    (step st >>= f).Yields steps b ↔ ∃ rest, (f ()).Yields rest b ∧ steps = st :: rest := by
  rw [yields_then_iff]
  constructor
  · rintro ⟨front, rest, hstep, hrest, rfl⟩
    obtain rfl := yields_step_iff.mp hstep
    exact ⟨rest, hrest, rfl⟩
  · rintro ⟨rest, hrest, rfl⟩
    exact ⟨[st], rest, yields_step_iff.mpr rfl, hrest, rfl⟩

/-- A block: its first line, what is in it, and its end. -/
theorem yields_block_iff {l : Line} {body : Script Unit} {steps : List Step} :
    (enter l >>= fun _ => body >>= fun _ => leave).Yields steps () ↔
      ∃ inner, body.Yields inner () ∧
        steps = .write (.enter l) :: inner ++ [Step.write (.leave .close)] := by
  constructor
  · intro h
    obtain ⟨rest, hrest, rfl⟩ := yields_step_then_iff.mp h
    obtain ⟨inner, last, hinner, hlast, rfl⟩ := yields_then_iff.mp hrest
    obtain rfl := yields_leave_iff.mp hlast
    exact ⟨inner, hinner, rfl⟩
  · rintro ⟨inner, hinner, rfl⟩
    refine yields_step_then_iff.mpr ⟨_, ?_, rfl⟩
    exact yields_then_iff.mpr ⟨inner, _, hinner, yields_leave_iff.mpr rfl, rfl⟩

/-- The steps of a script for each member of a list, when every one of them succeeds. -/
theorem yields_forEach_cons_iff {x : α} {xs : List α} {f : α → Script Unit} {u : Unit}
    {steps : List Step} :
    (forEach (x :: xs) f).Yields steps u ↔
      ∃ front back, (f x).Yields front () ∧ (forEach xs f).Yields back () ∧
        steps = front ++ back := by
  rw [forEach]
  exact yields_then_iff

/-- When each member contributes known steps, the whole list contributes them in order. -/
theorem forEach_yields_flatMap {xs : List α} {f : α → Script Unit} {g : α → List Step}
    (h : ∀ x ∈ xs, (f x).Yields (g x) ()) :
    (forEach xs f).Yields (xs.flatMap g) () := by
  induction xs with
  | nil => simp [forEach]
  | cons x xs ih =>
      rw [yields_forEach_cons_iff]
      have hrest : (forEach xs f).Yields (xs.flatMap g) () :=
        ih (fun y hy => h y (List.mem_cons_of_mem _ hy))
      exact ⟨g x, xs.flatMap g, h x List.mem_cons_self, hrest, by simp⟩

/-- Lines by themselves are always written. -/
theorem lines_yields (ls : List Line) :
    (lines ls).Yields (ls.map fun l => .write (.line l)) () := by
  rw [List.map_eq_flatMap]
  exact forEach_yields_flatMap (by intro l _; simp)

/-! ### Outcomes alone -/

/-- The outcome of two scripts in a row is that of their outcomes in a row. -/
@[simp] theorem outcome_bind (s : Script α) (f : α → Script β) :
    (s >>= f).outcome = s.outcome >>= fun a => (f a).outcome := by
  obtain ⟨steps, outcome⟩ := s
  cases outcome <;> rfl

/-- A script that only returns ends well. -/
@[simp] theorem outcome_pure (a : α) : (pure a : Script α).outcome = .ok a := rfl

/-- The outcome of a computation inside of a script is its own. -/
@[simp] theorem outcome_lift (x : Except Failure α) : (liftM x : Script α).outcome = x := rfl

/-- A script that fails ends with its failure. -/
@[simp] theorem outcome_fail (failure : Failure) :
    (fail failure : Script α).outcome = .error failure := rfl

/-- A single step ends well, and so does everything that is one step. -/
@[simp] theorem outcome_step (s : Step) : (step s).outcome = .ok () := rfl

@[simp] theorem outcome_line (l : Line) : (line l).outcome = .ok () := rfl

@[simp] theorem outcome_blank : blank.outcome = .ok () := rfl

@[simp] theorem outcome_enter (l : Line) : (enter l).outcome = .ok () := rfl

@[simp] theorem outcome_leave : leave.outcome = .ok () := rfl

@[simp] theorem outcome_leaveWith (l : Line) : (leaveWith l).outcome = .ok () := rfl

@[simp] theorem outcome_turn (l : Line) : (turn l).outcome = .ok () := rfl

@[simp] theorem outcome_log (e : Event) : (log e).outcome = .ok () := rfl

@[simp] theorem outcome_mark (m : Mark) : (mark m).outcome = .ok () := rfl

/-- A script for each member of a list succeeds when it does for every member. -/
theorem outcome_forEach_ok_iff {xs : List α} {f : α → Script Unit} :
    (forEach xs f).outcome = .ok () ↔ ∀ x ∈ xs, (f x).outcome = .ok () := by
  induction xs with
  | nil => simp [forEach, done]
  | cons x xs ih =>
      rw [forEach, outcome_bind, Except.bind_eq_ok_iff, List.forall_mem_cons, ← ih]
      constructor
      · rintro ⟨⟨⟩, hx, hxs⟩
        exact ⟨hx, hxs⟩
      · rintro ⟨hx, hxs⟩
        exact ⟨(), hx, hxs⟩

/-- Lines that are only written end well. -/
@[simp] theorem outcome_lines (ls : List Line) : (lines ls).outcome = .ok () :=
  congrArg Script.outcome (lines_yields ls)

/-- Comments end well. -/
@[simp] theorem outcome_doc (mark : CommentMark) (text : Option String) :
    (doc mark text).outcome = .ok () := by
  cases text with
  | none => rfl
  | some text => exact outcome_lines _

/-! ### Equal scripts -/

section

variable {γ : Type}

/-- Two scripts in a row are equal to two others if they are so one by one. -/
theorem bind_eq_bind {s s' : Script α} {f f' : α → Script β} (hs : s = s')
    (hf : ∀ a, f a = f' a) : s >>= f = s' >>= f' := by
  rw [hs, funext hf]

/-- What follows a script matters only for the value that it ends with. -/
theorem bind_congr_of_ok {s : Script α} {f f' : α → Script β}
    (h : ∀ a, s.outcome = .ok a → f a = f' a) : s >>= f = s >>= f' := by
  obtain ⟨steps, outcome⟩ := s
  cases outcome with
  | error failure => rfl
  | ok a => simp only [bind, andThen, h a rfl]

/-- A computation and a script behind it are equal to two others if they are so one by one. -/
theorem lift_eq_lift {x x' : Except Failure α} {f f' : α → Script β} (hx : x = x')
    (hf : ∀ a, f a = f' a) : (liftM x : Script α) >>= f = liftM x' >>= f' :=
  bind_eq_bind (congrArg liftM hx) hf

/-- A computation may give a changed value, if the script behind it takes the change back. -/
theorem lift_map_eq_lift {x : Except Failure α} {x' : Except Failure β} {u : α → β}
    {f : α → Script γ} {f' : β → Script γ} (hx : x' = u <$> x)
    (hf : ∀ a, x = .ok a → f' (u a) = f a) :
    (liftM x' : Script β) >>= f' = (liftM x : Script α) >>= f := by
  subst hx
  cases x with
  | error failure => rfl
  | ok a => exact hf a rfl

/-- Going through a changed list, with a script for each member that takes the change back. -/
theorem forEach_map_congr {xs : List α} {u : α → β} {f : β → Script Unit} {g : α → Script Unit}
    (h : ∀ x ∈ xs, f (u x) = g x) : forEach (xs.map u) f = forEach xs g := by
  induction xs with
  | nil => rfl
  | cons x xs ih =>
      obtain ⟨hx, hxs⟩ := List.forall_mem_cons.mp h
      rw [List.map_cons, forEach, forEach, hx, ih hxs]

/-- Going through a changed list is going through the list. -/
theorem forEach_map (xs : List α) (u : α → β) (f : β → Script Unit) :
    forEach (xs.map u) f = forEach xs fun x => f (u x) :=
  forEach_map_congr fun _ _ => rfl

end

end Script

end HdlSim
