import HdlSim.Proofs.Mirror
import HdlSim.Proofs.Rendering
import HdlSim.Proofs.Statements
import HdlSim.Proofs.Targets
import HdlSim.Proofs.WellFormed

/-!
# Well-formed expressions, types and statements are written

An expression has a value in the model exactly if it is well formed (`Site.value_succeeds_iff`), and
so have types (`Site.typeValue_succeeds_iff`).  Statements are written exactly if they are well
formed (`Site.block_succeeds_iff`); what they invalidate is what they write, so the signals that are
looked up for it are those that were looked up already.
-/

namespace HdlSim

/-- The result is a value. -/
def Succeeds {ε α : Type} (x : Except ε α) : Prop := ∃ a, x = .ok a

section

variable {ε α β : Type}

/-- To return succeeds. -/
@[simp] theorem succeeds_pure (a : α) : Succeeds (pure a : Except ε α) := ⟨a, rfl⟩

@[simp] theorem succeeds_ok (a : α) : Succeeds (.ok a : Except ε α) := ⟨a, rfl⟩

/-- To fail does not succeed. -/
@[simp] theorem succeeds_throw (e : ε) : ¬ Succeeds (throw e : Except ε α) := by
  rintro ⟨a, h⟩
  exact Except.throw_ne_ok.mp h

@[simp] theorem succeeds_error (e : ε) : ¬ Succeeds (.error e : Except ε α) := by
  rintro ⟨a, h⟩
  cases h

/-- A sequence succeeds when its first part does and the second does for the value of the first. -/
theorem succeeds_bind {x : Except ε α} {f : α → Except ε β} {p : Prop}
    (h : ∀ a, x = .ok a → (Succeeds (f a) ↔ p)) :
    Succeeds (x >>= f) ↔ Succeeds x ∧ p := by
  constructor
  · rintro ⟨b, hb⟩
    obtain ⟨a, ha, hf⟩ := Except.bind_eq_ok_iff.mp hb
    exact ⟨⟨a, ha⟩, (h a ha).mp ⟨b, hf⟩⟩
  · rintro ⟨⟨a, ha⟩, hp⟩
    obtain ⟨b, hb⟩ := (h a ha).mpr hp
    exact ⟨b, Except.bind_eq_ok_iff.mpr ⟨a, ha, hb⟩⟩

/-- What follows may be left out of account if it always succeeds. -/
@[simp] theorem succeeds_bind_of_forall {x : Except ε α} {f : α → Except ε β}
    (h : ∀ a, Succeeds (f a)) : Succeeds (x >>= f) ↔ Succeeds x :=
  (succeeds_bind (p := True) fun a _ => iff_true_intro (h a)).trans (and_iff_left trivial)

/-- Two computations, with something behind them that succeeds in any case. -/
@[simp] theorem succeeds_bind_bind_of_forall {γ : Type} {x : Except ε α} {y : Except ε β}
    {f : α → β → Except ε γ} (h : ∀ a b, Succeeds (f a b)) :
    Succeeds (x >>= fun a => y >>= f a) ↔ Succeeds x ∧ Succeeds y :=
  succeeds_bind fun a _ => succeeds_bind_of_forall (h a)

/-- Two computations in a row, the first of which has nothing to say. -/
@[simp] theorem succeeds_unit_bind {x : Except ε Unit} {f : Unit → Except ε β} :
    Succeeds (x >>= f) ↔ Succeeds x ∧ Succeeds (f ()) :=
  succeeds_bind fun _ _ => Iff.rfl

/-- A computation that has nothing to say succeeds in one way only. -/
private theorem succeeds_unit_iff {x : Except ε Unit} : Succeeds x ↔ x = .ok () :=
  ⟨fun ⟨(), h⟩ => h, fun h => ⟨(), h⟩⟩

/-- A list of results is a value when each of them is. -/
theorem succeeds_mapM {f : α → Except ε β} {xs : List α} :
    Succeeds (xs.mapM f) ↔ ∀ x ∈ xs, Succeeds (f x) := by
  induction xs with
  | nil => simp
  | cons x xs ih =>
      rw [List.mapM_cons, List.forall_mem_cons, ← ih]
      refine succeeds_bind fun b _ => ?_
      rw [succeeds_bind (p := True) fun bs _ => by simp]
      simp

end

/-! ### Names -/

/-- A name has a text if and only if the table has one. -/
theorem Context.name_succeeds_iff {c : Context} {n : Ident} :
    Succeeds (c.name n) ↔ c.names.Resolves n :=
  exists_congr fun _ => Context.name_eq_ok_iff

/-- A name has an identifier if and only if the table has a text for it. -/
theorem Context.host_succeeds_iff {c : Context} {n : Ident} :
    Succeeds (c.host n) ↔ c.names.Resolves n := by
  rw [← Context.name_succeeds_iff]
  unfold Context.host
  rw [succeeds_bind (p := True) fun a _ => by simp]
  simp

/-- Some names have texts if and only if each has one. -/
theorem Context.texts_succeeds_iff {c : Context} {ns : List Ident} :
    Succeeds (c.texts ns) ↔ ∀ n ∈ ns, c.names.Resolves n := by
  unfold Context.texts
  rw [succeeds_mapM]
  simp only [Context.name_succeeds_iff]

/-- Some names have identifiers if and only if each has a text. -/
theorem Context.hosts_succeeds_iff {c : Context} {ns : List Ident} :
    Succeeds (c.hosts ns) ↔ ∀ n ∈ ns, c.names.Resolves n := by
  unfold Context.hosts
  rw [succeeds_mapM]
  simp only [Context.host_succeeds_iff]

namespace Site

/-- A proxy can be reached if its name has a text, and not from where there is no model. -/
theorem ProxyReference.exists_iff {s : Site} {n : Ident} :
    (∃ h, ProxyReference s n h) ↔ s.context.names.Resolves n ∧ s.place ≠ .static := by
  constructor
  · rintro ⟨h, hproxy⟩
    cases hproxy with
    | inConstructor hplace hname => exact ⟨⟨_, hname⟩, by simp [hplace]⟩
    | inProcess hplace hname => exact ⟨⟨_, hname⟩, by simp [hplace]⟩
  · rintro ⟨⟨text, hname⟩, hplace⟩
    cases h : s.place with
    | constructor => exact ⟨_, .inConstructor h hname⟩
    | process => exact ⟨_, .inProcess h hname⟩
    | static => exact absurd h hplace

/-- Exactly the signals have proxies. -/
theorem proxyOf_succeeds_iff {s : Site} {n : Ident} :
    Succeeds (s.proxyOf n) ↔ IsSignal s.context.names s.scope s.place n := by
  have hiff : Succeeds (s.proxyOf n) ↔
      s.scope.get? n = some .proxy ∧ ∃ h, ProxyReference s n h := by
    unfold Succeeds
    simp only [proxyOf_eq_ok_iff, exists_and_left]
  rw [hiff, ProxyReference.exists_iff]
  exact ⟨fun ⟨hkind, hname, hplace⟩ => ⟨hkind, hname, hplace⟩,
    fun ⟨hkind, hname, hplace⟩ => ⟨hkind, hname, hplace⟩⟩

/-- A name that refers to something has a value. -/
theorem NameReference.hasValue {s : Site} {n : Ident} {h : HostExpr}
    (hn : NameReference s n h) : HasValue s.context.names s.scope s.place n := by
  cases hn with
  | signal hkind hproxy =>
      obtain ⟨hname, hplace⟩ := ProxyReference.exists_iff.mp ⟨_, hproxy⟩
      exact ⟨hname, fun _ => hplace, by simp [hkind]⟩
  | constantInConstructor hkind hplace hname =>
      exact ⟨⟨_, hname⟩, by simp [hplace], by simp [hkind]⟩
  | constantInProcess hkind hplace hname =>
      exact ⟨⟨_, hname⟩, by simp [hplace], by simp [hkind]⟩
  | type hkind hname => exact ⟨⟨_, hname⟩, by simp [hkind], by simp [hkind]⟩
  | member hkind hname htype =>
      refine ⟨⟨_, hname⟩, by simp [hkind], ?_⟩
      intro type htyped
      obtain rfl : _ = type := by simpa [hkind] using htyped
      exact ⟨_, htype⟩
  | free hkind hname => exact ⟨⟨_, hname⟩, by simp [hkind], by simp [hkind]⟩

/-- A name that has a value refers to something. -/
private theorem nameReference_of_hasValue {s : Site} {n : Ident}
    (hn : HasValue s.context.names s.scope s.place n) : ∃ h, NameReference s n h := by
  obtain ⟨⟨text, hname⟩, hplace, htyped⟩ := hn
  cases hkind : s.scope.get? n with
  | none => exact ⟨_, .free hkind hname⟩
  | some kind =>
      cases kind with
      | proxy =>
          obtain ⟨proxy, hproxy⟩ :=
            ProxyReference.exists_iff.mpr ⟨⟨text, hname⟩, hplace (.inl hkind)⟩
          exact ⟨_, .signal hkind hproxy⟩
      | constant =>
          cases h : s.place with
          | constructor => exact ⟨_, .constantInConstructor hkind h hname⟩
          | process => exact ⟨_, .constantInProcess hkind h hname⟩
          | static => exact absurd h (hplace (.inr hkind))
      | type => exact ⟨_, .type hkind hname⟩
      | enumMember type =>
          obtain ⟨typeText, htype⟩ := htyped type hkind
          exact ⟨_, .member hkind hname htype⟩

end Site

/-! ### Values and types -/

/-- A literal that is mirrored is well-formed. -/
theorem LiteralMirrors.wellFormed {v : Literal} {t : HostExpr} (h : LiteralMirrors v t) :
    v.WellFormed := by
  cases h with
  | bits width hdigits => exact hdigits
  | _ => trivial

/-- A well-formed literal is mirrored. -/
theorem Literal.WellFormed.mirrored {v : Literal} (h : v.WellFormed) :
    ∃ t, LiteralMirrors v t := by
  cases v with
  | int v => exact ⟨_, .int v⟩
  | bits width digits => exact ⟨_, .bits width h⟩
  | bool b => exact ⟨_, .bool b⟩
  | str text => exact ⟨_, .str text⟩

mutual

/-- What has a value is well formed. -/
theorem Mirrors.wellFormed {s : Site} :
    ∀ {e : Expr} {t : HostExpr}, Mirrors s e t → e.WellFormed s.context.names s.scope s.place
  | _, _, .name hn => .name hn.hasValue
  | _, _, .literal hv => .literal hv.wellFormed
  | _, _, .unary op ha => .unary op ha.wellFormed
  | _, _, .binary op ha hb => .binary op ha.wellFormed hb.wellFormed
  | _, _, .ternary hc ha hb => .ternary hc.wellFormed ha.wellFormed hb.wellFormed
  | _, _, .index ha hi => .index ha.wellFormed hi.wellFormed
  | _, _, .slice ha hh hl => .slice ha.wellFormed hh.wellFormed hl.wellFormed
  | _, _, .concat ha has =>
      .concat (by simp) (List.forall_mem_cons.mpr ⟨ha.wellFormed, has.wellFormed⟩)
  | _, _, .cast ha htype => .cast ha.wellFormed htype.wellFormed
  | _, _, .call hf has => .call ⟨_, hf⟩ has.wellFormed
  | _, _, .edge edge hkind hn =>
      .edge edge ⟨hkind, (Site.ProxyReference.exists_iff.mp ⟨_, hn⟩).1,
        (Site.ProxyReference.exists_iff.mp ⟨_, hn⟩).2⟩
  | _, _, .type htype => .type htype.wellFormed

/-- Expressions that are mirrored are well-formed. -/
theorem MirrorsAll.wellFormed {s : Site} :
    ∀ {es : List Expr} {ts : List HostExpr}, MirrorsAll s es ts →
      ∀ e ∈ es, e.WellFormed s.context.names s.scope s.place
  | _, _, .nil => by simp
  | _, _, .cons ha has => List.forall_mem_cons.mpr ⟨ha.wellFormed, has.wellFormed⟩

/-- A type that is mirrored is well-formed. -/
theorem TypeMirrors.wellFormed {s : Site} :
    ∀ {type : Ty} {t : HostExpr}, TypeMirrors s type t →
      type.WellFormed s.context.names s.scope s.place
  | _, _, .bits width signed => .bits width signed
  | _, _, .array helement hsize => .array helement.wellFormed hsize.wellFormed
  | _, _, .own _ hn => .named ⟨_, hn⟩
  | _, _, .foreign _ hn => .named ⟨_, hn⟩

end

namespace Site

/-- Expressions that have values have them together. -/
theorem values_succeeds_of_forall {s : Site} {es : List Expr}
    (h : ∀ e ∈ es, Succeeds (s.value e)) : Succeeds (s.values es) := by
  induction es with
  | nil => exact ⟨[], rfl⟩
  | cons e es ih =>
      obtain ⟨t, ht⟩ := h e List.mem_cons_self
      obtain ⟨ts, hts⟩ := ih fun a ha => h a (List.mem_cons_of_mem _ ha)
      refine ⟨t :: ts, ?_⟩
      rw [values, ht, hts]
      rfl

/-- A concatenation of expressions that have values has one. -/
private theorem concatValue_succeeds_of_forall {s : Site} {es : List Expr}
    (h : ∀ e ∈ es, Succeeds (s.value e)) (front : HostExpr) :
    Succeeds (s.concatValue front es) := by
  induction es generalizing front with
  | nil => exact ⟨front, rfl⟩
  | cons e es ih =>
      obtain ⟨t, ht⟩ := h e List.mem_cons_self
      obtain ⟨r, hr⟩ := ih (fun a ha => h a (List.mem_cons_of_mem _ ha))
        (.method front "concat" [t])
      refine ⟨r, ?_⟩
      rw [concatValue, ht]
      exact hr

mutual

/-- What is well formed has a value. -/
theorem value_of_wellFormed {s : Site} : ∀ {e : Expr},
    e.WellFormed s.context.names s.scope s.place → Succeeds (s.value e)
  | .name n, .name hn => by
      obtain ⟨h, href⟩ := nameReference_of_hasValue hn
      exact ⟨h, nameValue_eq_ok_iff.mpr href⟩
  | .literal v, .literal hv => by
      obtain ⟨h, href⟩ := hv.mirrored
      exact ⟨h, literalValue_eq_ok_iff.mpr href⟩
  | .unary op a, .unary _ ha => by
      obtain ⟨t, ht⟩ := value_of_wellFormed ha
      exact ⟨_, Except.bind_eq_ok_iff.mpr ⟨t, ht, rfl⟩⟩
  | .binary op a b, .binary _ ha hb => by
      obtain ⟨l, hl⟩ := value_of_wellFormed ha
      obtain ⟨r, hr⟩ := value_of_wellFormed hb
      refine ⟨op.apply l r, ?_⟩
      rw [value, hl, hr]
      rfl
  | .ternary c a b, .ternary hc ha hb => by
      obtain ⟨t, ht⟩ := value_of_wellFormed hc
      obtain ⟨l, hl⟩ := value_of_wellFormed ha
      obtain ⟨r, hr⟩ := value_of_wellFormed hb
      refine ⟨.runtime "ternary" [t, l, r], ?_⟩
      rw [value, ht, hl, hr]
      rfl
  | .index a i, .index ha hi => by
      obtain ⟨t, ht⟩ := value_of_wellFormed ha
      obtain ⟨u, hu⟩ := value_of_wellFormed hi
      refine ⟨.method t "index" [u], ?_⟩
      rw [value, ht, hu]
      rfl
  | .slice a h l, .slice ha hh hl => by
      obtain ⟨t, ht⟩ := value_of_wellFormed ha
      obtain ⟨u, hu⟩ := value_of_wellFormed hh
      obtain ⟨v, hv⟩ := value_of_wellFormed hl
      refine ⟨.method t "slice" [u, v], ?_⟩
      rw [value, ht, hu, hv]
      rfl
  | .concat [], .concat hne _ => absurd rfl hne
  | .concat (e :: es), .concat _ hes => by
      obtain ⟨t, ht⟩ := value_of_wellFormed (hes e List.mem_cons_self)
      obtain ⟨r, hr⟩ := concatValue_succeeds_of_forall
        (fun a ha => value_of_wellFormed (hes a (List.mem_cons_of_mem _ ha))) t
      exact ⟨r, Except.bind_eq_ok_iff.mpr ⟨t, ht, hr⟩⟩
  | .cast a type, .cast ha htype => by
      obtain ⟨t, ht⟩ := value_of_wellFormed ha
      obtain ⟨u, hu⟩ := typeValue_of_wellFormed htype
      refine ⟨.method t "reinterpret_cast" [u], ?_⟩
      rw [value, ht, hu]
      rfl
  | .call f args, .call hf hargs => by
      obtain ⟨ts, hts⟩ := values_succeeds_of_forall fun a ha => value_of_wellFormed (hargs a ha)
      obtain ⟨host, hhost⟩ := Context.host_succeeds_iff.mpr hf
      refine ⟨.call host ts, ?_⟩
      rw [value, hts, hhost]
      rfl
  | .edge k _, .edge _ hn => by
      obtain ⟨p, hp⟩ := proxyOf_succeeds_iff.mpr hn
      exact ⟨_, Except.bind_eq_ok_iff.mpr ⟨p, hp, rfl⟩⟩
  | .type type, .type htype => typeValue_of_wellFormed htype

/-- A well-formed type has a value. -/
theorem typeValue_of_wellFormed {s : Site} : ∀ {type : Ty},
    type.WellFormed s.context.names s.scope s.place → Succeeds (s.typeValue type)
  | .bits width signed, _ => ⟨_, rfl⟩
  | .array element size, .array helement hsize => by
      obtain ⟨t, ht⟩ := typeValue_of_wellFormed helement
      obtain ⟨u, hu⟩ := value_of_wellFormed hsize
      refine ⟨.runtime "array3t" [t, u], ?_⟩
      rw [typeValue, ht, hu]
      rfl
  | .named n, .named hn => by
      rw [typeValue]
      refine (succeeds_bind (p := True) fun host _ => ?_).mpr
        ⟨Context.host_succeeds_iff.mpr hn, trivial⟩
      split <;> simp

end

/-- **Values.**  An expression has a value exactly if it is well formed. -/
theorem value_succeeds_iff {s : Site} {e : Expr} :
    Succeeds (s.value e) ↔ e.WellFormed s.context.names s.scope s.place :=
  ⟨fun ⟨_, h⟩ => (value_mirrors h).wellFormed, value_of_wellFormed⟩

/-- Expressions have values if and only if they are well-formed. -/
private theorem values_succeeds_iff {s : Site} {es : List Expr} :
    Succeeds (s.values es) ↔ ∀ e ∈ es, e.WellFormed s.context.names s.scope s.place :=
  ⟨fun ⟨_, h⟩ => (values_mirror h).wellFormed,
    fun h => values_succeeds_of_forall fun e he => value_of_wellFormed (h e he)⟩

/-- A type has a value if and only if it is well-formed. -/
theorem typeValue_succeeds_iff {s : Site} {type : Ty} :
    Succeeds (s.typeValue type) ↔ type.WellFormed s.context.names s.scope s.place :=
  ⟨fun ⟨_, h⟩ => (typeValue_mirrors h).wellFormed, typeValue_of_wellFormed⟩

end Site

/-! ### Scripts -/

namespace Script

variable {α β : Type}

/-- Two scripts in a row, if it does not matter for the second what the first gives. -/
theorem succeeds_bind {s : Script α} {f : α → Script β} {p : Prop}
    (h : ∀ a, s.outcome = .ok a → (Succeeds (f a).outcome ↔ p)) :
    Succeeds (s >>= f).outcome ↔ Succeeds s.outcome ∧ p := by
  rw [outcome_bind]
  exact HdlSim.succeeds_bind h

/-- A computation in front of a script, if it does not matter for the script what it gives. -/
theorem succeeds_lift {x : Except Failure α} {f : α → Script β} {p : Prop}
    (h : ∀ a, x = .ok a → (Succeeds (f a).outcome ↔ p)) :
    Succeeds ((liftM x : Script α) >>= f).outcome ↔ Succeeds x ∧ p :=
  succeeds_bind h

/-- A script for each member of a list succeeds if each does. -/
theorem succeeds_mapM {xs : List α} {f : α → Script β} :
    Succeeds (xs.mapM f).outcome ↔ ∀ x ∈ xs, Succeeds (f x).outcome := by
  have houtcome : (xs.mapM f).outcome = xs.mapM fun x => (f x).outcome := by
    induction xs with
    | nil => rfl
    | cons x xs ih => simp only [List.mapM_cons, outcome_bind, outcome_pure, ih]; rfl
  rw [houtcome, HdlSim.succeeds_mapM]

/-- Scripts for the members of a list that have nothing to say succeed if each does. -/
theorem succeeds_forEach {xs : List α} {f : α → Script Unit} :
    Succeeds (forEach xs f).outcome ↔ ∀ x ∈ xs, Succeeds (f x).outcome := by
  simp only [succeeds_unit_iff]
  exact outcome_forEach_ok_iff

/-- A line that is written once its value is known. -/
theorem succeeds_lift_line {x : Except Failure α} {f : α → Line} :
    Succeeds ((liftM x : Script α) >>= fun a => line (f a)).outcome ↔ Succeeds x :=
  (succeeds_lift (p := True) fun _ _ => by simp).trans (by simp)

end Script

/-! ### Statements -/

namespace Site

open Script

/-- An assignment is written if it has a target and a value. -/
private theorem assignLine_succeeds_iff {s : Site} {target value : Expr} :
    Succeeds (s.assignLine target value) ↔
      target.IsTarget s.context.names s.scope s.place ∧
        value.WellFormed s.context.names s.scope s.place := by
  constructor
  · rintro ⟨l, hl⟩
    obtain ⟨v, hv, hline⟩ := Except.bind_eq_ok_iff.mp hl
    refine ⟨?_, value_succeeds_iff.mp ⟨v, hv⟩⟩
    split at hline
    · obtain ⟨p, hp, -⟩ := Except.bind_eq_ok_iff.mp hline
      exact .name (proxyOf_succeeds_iff.mp ⟨p, hp⟩)
    · obtain ⟨p, hp, hrest⟩ := Except.bind_eq_ok_iff.mp hline
      obtain ⟨i, hi, -⟩ := Except.bind_eq_ok_iff.mp hrest
      exact .index (proxyOf_succeeds_iff.mp ⟨p, hp⟩) (value_succeeds_iff.mp ⟨i, hi⟩)
    · obtain ⟨p, hp, hrest⟩ := Except.bind_eq_ok_iff.mp hline
      obtain ⟨h, hh, hrest⟩ := Except.bind_eq_ok_iff.mp hrest
      obtain ⟨l, hl, -⟩ := Except.bind_eq_ok_iff.mp hrest
      exact .slice (proxyOf_succeeds_iff.mp ⟨p, hp⟩) (value_succeeds_iff.mp ⟨h, hh⟩)
        (value_succeeds_iff.mp ⟨l, hl⟩)
    · simp at hline
  · rintro ⟨htarget, hvalue⟩
    obtain ⟨v, hv⟩ := value_succeeds_iff.mpr hvalue
    cases htarget with
    | name hn =>
        obtain ⟨p, hp⟩ := proxyOf_succeeds_iff.mpr hn
        refine ⟨.write p v, ?_⟩
        simp only [assignLine, hv, hp]
        rfl
    | index hn hi =>
        obtain ⟨p, hp⟩ := proxyOf_succeeds_iff.mpr hn
        obtain ⟨i, hi⟩ := value_succeeds_iff.mpr hi
        refine ⟨.writeAt p i v, ?_⟩
        simp only [assignLine, hv, hp, hi]
        rfl
    | slice hn hh hl =>
        obtain ⟨p, hp⟩ := proxyOf_succeeds_iff.mpr hn
        obtain ⟨h, hh⟩ := value_succeeds_iff.mpr hh
        obtain ⟨l, hl⟩ := value_succeeds_iff.mpr hl
        refine ⟨.writeSlice p h l v, ?_⟩
        simp only [assignLine, hv, hp, hh, hl]
        rfl

/-- Signals can be made invalid if they are signals. -/
theorem invalidate_succeeds_iff {s : Site} {ns : List Ident} :
    Succeeds (s.invalidate ns).outcome ↔
      ∀ n ∈ ns, IsSignal s.context.names s.scope s.place n := by
  unfold invalidate
  rw [succeeds_forEach]
  refine forall₂_congr fun n _ => ?_
  rw [succeeds_lift_line, proxyOf_succeeds_iff]

private theorem invalidArm_succeeds_iff {s : Site} {ns : List Ident} :
    Succeeds (s.invalidArm ns).outcome ↔
      ∀ n ∈ ns, IsSignal s.context.names s.scope s.place n := by
  unfold invalidArm
  split
  · simp
  · simp [invalidate_succeeds_iff]

/-- The arm for a condition that does not hold succeeds as its body does. -/
private theorem falseArm_succeeds_iff {next : Option (Script Unit)} :
    Succeeds (falseArm next).outcome ↔ ∀ script ∈ next, Succeeds script.outcome := by
  cases next with
  | none => simp [falseArm]
  | some script => simp [falseArm]

/-- The block of the default succeeds as its body does. -/
private theorem defaultArm_succeeds_iff {default : Option (Script Unit)} :
    Succeeds (defaultArm default).outcome ↔ ∀ script ∈ default, Succeeds script.outcome := by
  cases default with
  | none => simp [defaultArm]
  | some script => simp [defaultArm]

/-- A body is written if each of its statements is. -/
theorem block_succeeds_iff_forall {s : Site} {body : List Stmt} :
    Succeeds (s.block body).outcome ↔ ∀ st ∈ body, Succeeds (s.stmt st).outcome := by
  induction body with
  | nil => simp [block]
  | cons st body ih => rw [block, outcome_bind, succeeds_unit_bind, ih, List.forall_mem_cons]

/-- A body that may be missing is written if each of its statements is. -/
theorem optionBlock_succeeds_iff_forall {s : Site} {body : Option (List Stmt)} :
    (∀ script ∈ s.optionBlock body, Succeeds script.outcome) ↔
      ∀ b ∈ body, ∀ st ∈ b, Succeeds (s.stmt st).outcome := by
  cases body with
  | none => simp [optionBlock]
  | some body => simp [optionBlock, block_succeeds_iff_forall]

/-- The first of some branches is written if its condition, its body and what it leaves invalid can
be, and what comes instead of it. -/
private theorem branches_cons_succeeds_iff {s : Site} {elseTargets : List Ident → List Ident}
    {elseBody : Option (Script Unit)} {b : IfBranch} {rest : List IfBranch} :
    Succeeds (s.branches elseTargets elseBody (b :: rest)).outcome ↔
      b.condition.WellFormed s.context.names s.scope s.place ∧
      (∀ st ∈ b.body, Succeeds (s.stmt st).outcome) ∧
      (∀ script ∈ if rest.isEmpty then elseBody
        else some (s.branches elseTargets elseBody rest), Succeeds script.outcome) ∧
      ∀ n ∈ elseTargets (branchTargets (b :: rest) []),
        IsSignal s.context.names s.scope s.place n := by
  obtain ⟨condition, body⟩ := b
  rw [branches]
  refine (succeeds_lift fun c _ => ?_).trans (and_congr_left' value_succeeds_iff)
  simp only [outcome_bind, succeeds_unit_bind, outcome_enter, outcome_leave, succeeds_ok, true_and,
    and_true, block_succeeds_iff_forall, falseArm_succeeds_iff, invalidArm_succeeds_iff]

/-- Branches succeed with their conditions and bodies, if what they may write are signals. -/
theorem branches_succeeds_iff {s : Site} {branches : List IfBranch}
    {elseBody : Option (List Stmt)} (hne : branches ≠ []) :
    Succeeds (s.branches (optionTargets elseBody) (s.optionBlock elseBody) branches).outcome ↔
      (∀ b ∈ branches, b.condition.WellFormed s.context.names s.scope s.place) ∧
      (∀ b ∈ branches, ∀ st ∈ b.body, Succeeds (s.stmt st).outcome) ∧
      (∀ body ∈ elseBody, ∀ st ∈ body, Succeeds (s.stmt st).outcome) ∧
      ∀ n ∈ (Stmt.ifElse branches elseBody).writes,
        IsSignal s.context.names s.scope s.place n := by
  induction branches with
  | nil => exact absurd rfl hne
  | cons b rest ih =>
      rw [branches_cons_succeeds_iff]
      simp only [ifTargets_eq, List.mem_eraseDups, Stmt.writes, List.forall_mem_cons] at ih ⊢
      cases rest with
      | nil =>
          rw [if_pos List.isEmpty_nil, optionBlock_succeeds_iff_forall]
          simp only [List.not_mem_nil, false_implies, implies_true, and_true]
      | cons b' rest =>
          rw [if_neg (by simp)]
          simp only [Option.mem_some, forall_eq', ih (List.cons_ne_nil b' rest)]
          -- The signals of the branches that are left are among those of all branches.
          have hwrites : ∀ n ∈ branchWrites (b' :: rest) ++ optionWrites elseBody,
              n ∈ branchWrites (b :: b' :: rest) ++ optionWrites elseBody := by
            intro n hn
            obtain ⟨condition, body⟩ := b
            rw [branchWrites, List.append_assoc]
            exact List.mem_append_right _ hn
          constructor
          · rintro ⟨hcondition, hbody, ⟨hconditions, hbodies, helse, -⟩, hsignals⟩
            exact ⟨⟨hcondition, hconditions⟩, ⟨hbody, hbodies⟩, helse, hsignals⟩
          · rintro ⟨⟨hcondition, hconditions⟩, ⟨hbody, hbodies⟩, helse, hsignals⟩
            exact ⟨hcondition, hbody,
              ⟨hconditions, hbodies, helse, fun n hn => hsignals n (hwrites n hn)⟩, hsignals⟩

/-- An arm can be tested if it has choices, and these have values. -/
private theorem armLine_succeeds_iff {s : Site} {choices : List Expr} :
    Succeeds (s.armLine choices) ↔
      choices ≠ [] ∧ ∀ c ∈ choices, c.WellFormed s.context.names s.scope s.place := by
  cases choices with
  | nil => simp [armLine]
  | cons c choices =>
      have hvalues : Succeeds (s.armLine (c :: choices)) ↔ Succeeds (s.values (c :: choices)) :=
        (succeeds_bind (p := True) fun _ _ => by simp).trans (by simp)
      rw [hvalues, values_succeeds_iff]
      simp

/-- Arms are written if they can be tested and their bodies are written. -/
private theorem arms_succeeds_iff {s : Site} {arms : List CaseArm} :
    Succeeds (s.arms arms).outcome ↔
      (∀ arm ∈ arms, arm.choices ≠ []) ∧
      (∀ arm ∈ arms, ∀ c ∈ arm.choices, c.WellFormed s.context.names s.scope s.place) ∧
      ∀ arm ∈ arms, ∀ st ∈ arm.body, Succeeds (s.stmt st).outcome := by
  induction arms with
  | nil => simp [Site.arms]
  | cons arm rest ih =>
      obtain ⟨choices, body⟩ := arm
      have hfirst : Succeeds (s.arms (⟨choices, body⟩ :: rest)).outcome ↔
          Succeeds (s.armLine choices) ∧ Succeeds (s.block body).outcome ∧
            Succeeds (s.arms rest).outcome := by
        rw [Site.arms]
        exact succeeds_lift fun l _ => by simp
      rw [hfirst, armLine_succeeds_iff, block_succeeds_iff_forall, ih]
      simp only [List.forall_mem_cons]
      constructor
      · rintro ⟨⟨hne, hchoices⟩, hbody, hnes, hchoicess, hbodies⟩
        exact ⟨⟨hne, hnes⟩, ⟨hchoices, hchoicess⟩, hbody, hbodies⟩
      · rintro ⟨⟨hne, hnes⟩, ⟨hchoices, hchoicess⟩, hbody, hbodies⟩
        exact ⟨⟨hne, hchoices⟩, hbody, hnes, hchoicess, hbodies⟩

/-- A case statement is written if its selector, its arms and its default are, and what it writes
are signals. -/
private theorem case_succeeds_iff {s : Site} {selector : Expr} {arms : List CaseArm}
    {default : Option (List Stmt)} :
    Succeeds (s.stmt (.case selector arms default)).outcome ↔
      selector.WellFormed s.context.names s.scope s.place ∧
      (∀ n ∈ (Stmt.case selector arms default).writes,
        IsSignal s.context.names s.scope s.place n) ∧
      Succeeds (s.arms arms).outcome ∧
      ∀ body ∈ default, ∀ st ∈ body, Succeeds (s.stmt st).outcome := by
  have hwarn : Succeeds (s.warnRepeated arms).outcome := ⟨(), warnRepeated_outcome s arms⟩
  rw [stmt]
  simp only [outcome_bind, succeeds_unit_bind, hwarn, outcome_enter, succeeds_ok, true_and]
  refine (succeeds_bind fun sel _ => ?_).trans (and_congr_left' value_succeeds_iff)
  simp only [outcome_line, outcome_leave, succeeds_unit_bind, succeeds_ok, true_and, and_true,
    invalidate_succeeds_iff, caseTargets_eq, List.mem_eraseDups, Stmt.writes,
    defaultArm_succeeds_iff, optionBlock_succeeds_iff_forall]

end Site

/-- What a target belongs to is a signal. -/
theorem Expr.IsTarget.isSignal {names : NameTable} {scope : Scope} {place : Place} {e : Expr}
    (h : e.IsTarget names scope place) : ∀ n ∈ e.targetRoot?, IsSignal names scope place n := by
  intro n hn
  cases h with
  | name hsignal | index hsignal _ | slice hsignal _ _ =>
      obtain rfl := Option.some.inj hn
      exact hsignal

/-- **Writes.**  Well-formed statements write signals only. -/
theorem Stmt.WellFormed.writes {names : NameTable} {scope : Scope} {place : Place} {st : Stmt}
    (h : st.WellFormed names scope place) : ∀ n ∈ st.writes, IsSignal names scope place n := by
  induction h with
  | assign htarget _ =>
      intro n hn
      exact htarget.isSignal n (by simpa [Stmt.writes] using hn)
  | ifElse _ _ _ _ hbodies helse =>
      intro n hn
      rcases List.mem_append.mp hn with hn | hn
      · obtain ⟨b, hb, hn⟩ := mem_branchWrites.mp hn
        obtain ⟨st, hst, hn⟩ := mem_blockWrites.mp hn
        exact hbodies b hb st hst n hn
      · obtain ⟨b, hb, hn⟩ := mem_optionWrites.mp hn
        obtain ⟨st, hst, hn⟩ := mem_blockWrites.mp hn
        exact helse b hb st hst n hn
  | case _ _ _ _ _ hbodies hdefault =>
      intro n hn
      rcases List.mem_append.mp hn with hn | hn
      · obtain ⟨arm, harm, hn⟩ := mem_armWrites.mp hn
        obtain ⟨st, hst, hn⟩ := mem_blockWrites.mp hn
        exact hbodies arm harm st hst n hn
      · obtain ⟨b, hb, hn⟩ := mem_optionWrites.mp hn
        obtain ⟨st, hst, hn⟩ := mem_blockWrites.mp hn
        exact hdefault b hb st hst n hn
  | block _ hbody =>
      intro n hn
      obtain ⟨st, hst, hn⟩ := mem_blockWrites.mp hn
      exact hbody st hst n hn
  | null => simp [Stmt.writes]

namespace Site

open Script

/-- **Statements.**  The script of a statement succeeds exactly if the statement is well formed. -/
theorem stmt_succeeds_iff {s : Site} {st : Stmt} :
    Succeeds (s.stmt st).outcome ↔ st.WellFormed s.context.names s.scope s.place := by
  induction st using Stmt.bodyInduction with
  | assign target value =>
      rw [stmt, succeeds_lift_line, assignLine_succeeds_iff]
      constructor
      · rintro ⟨htarget, hvalue⟩
        exact .assign htarget hvalue
      · intro h
        obtain ⟨htarget, hvalue⟩ := h
        exact ⟨htarget, hvalue⟩
  | ifElse branches elseBody ihbodies ihelse =>
      constructor
      · intro h
        have hne : branches ≠ [] := by
          rintro rfl
          simp [stmt, Site.branches] at h
        rw [stmt, branches_succeeds_iff hne] at h
        obtain ⟨hconditions, hbodies, helse, -⟩ := h
        exact .ifElse hne hconditions
          (fun b hb st hst => (ihbodies b hb st hst).mp (hbodies b hb st hst))
          (fun b hb st hst => (ihelse b hb st hst).mp (helse b hb st hst))
      · intro h
        have hwrites := h.writes
        obtain - | ⟨hne, hconditions, hbodies, helse⟩ := h
        rw [stmt, branches_succeeds_iff hne]
        exact ⟨hconditions,
          fun b hb st hst => (ihbodies b hb st hst).mpr (hbodies b hb st hst),
          fun b hb st hst => (ihelse b hb st hst).mpr (helse b hb st hst), hwrites⟩
  | case selector arms default ihbodies ihdefault =>
      rw [case_succeeds_iff, arms_succeeds_iff]
      constructor
      · rintro ⟨hselector, -, ⟨hne, hchoices, hbodies⟩, hdefault⟩
        exact .case hselector hne hchoices
          (fun arm harm st hst => (ihbodies arm harm st hst).mp (hbodies arm harm st hst))
          (fun b hb st hst => (ihdefault b hb st hst).mp (hdefault b hb st hst))
      · intro h
        have hwrites := h.writes
        obtain - | - | ⟨hselector, hne, hchoices, hbodies, hdefault⟩ := h
        exact ⟨hselector, hwrites, ⟨hne, hchoices,
          fun arm harm st hst => (ihbodies arm harm st hst).mpr (hbodies arm harm st hst)⟩,
          fun b hb st hst => (ihdefault b hb st hst).mpr (hdefault b hb st hst)⟩
  | block body ih =>
      rw [stmt, block_succeeds_iff_forall]
      constructor
      · intro h
        exact .block fun st hst => (ih st hst).mp (h st hst)
      · intro h st hst
        obtain - | - | - | ⟨hbody⟩ := h
        exact (ih st hst).mpr (hbody st hst)
  | null => exact ⟨fun _ => .null, fun _ => by simp [stmt]⟩

/-- **Bodies.**  A body is written if and only if all its statements are well formed. -/
theorem block_succeeds_iff {s : Site} {body : List Stmt} :
    Succeeds (s.block body).outcome ↔
      ∀ st ∈ body, st.WellFormed s.context.names s.scope s.place := by
  rw [block_succeeds_iff_forall]
  simp only [stmt_succeeds_iff]

end Site

end HdlSim
