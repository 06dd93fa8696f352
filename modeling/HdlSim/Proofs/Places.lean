import HdlSim.Proofs.Acceptance
import HdlSim.Proofs.Identifiers
import Mathlib.Data.List.Forall2

/-!
# The place decides the spelling

The same expression may stand in the constructor, in a process or where there is no model.  Only the
names in it are written differently, so results at two places are related as soon as the results for
its names are (`Site.value_lifted`).  This has two uses: inside the model, an expression has
a value at one place if it has one at the other, and else the same failure; and an expression
without names of signals and constants is written the same way everywhere.  Conversely, what has a
value where there is no model has no such names (`Mirrors.not_owns`).

Main statement: `places_agree`.
-/

namespace HdlSim

/-! ### Names in the place of values -/

mutual

/-- The names that stand for values in an expression, at any depth.  Named types and the functions
that are called do not count. -/
def Expr.valueNames : Expr → List Ident
  | .name n => [n]
  | .literal _ => []
  | .unary _ a => a.valueNames
  | .binary _ a b => a.valueNames ++ b.valueNames
  | .ternary c a b => c.valueNames ++ a.valueNames ++ b.valueNames
  | .index a i => a.valueNames ++ i.valueNames
  | .slice a h l => a.valueNames ++ h.valueNames ++ l.valueNames
  | .concat parts => Expr.valueNamesOf parts
  | .cast a t => a.valueNames ++ t.valueNames
  | .call _ args => Expr.valueNamesOf args
  | .edge _ a => a.valueNames
  | .type t => t.valueNames

/-- The same of some expressions, in order. -/
def Expr.valueNamesOf : List Expr → List Ident
  | [] => []
  | e :: es => e.valueNames ++ Expr.valueNamesOf es

/-- The same of a type: they stand in the sizes of arrays and the values of members. -/
def Ty.valueNames : Ty → List Ident
  | .bits _ _ => []
  | .enum members => EnumMember.valueNamesOf members
  | .array t size => t.valueNames ++ size.valueNames
  | .named _ => []
  | .typeOfTypes => []

def EnumMember.valueNames : EnumMember → List Ident
  | ⟨_, value⟩ => Expr.valueNamesOption value

def EnumMember.valueNamesOf : List EnumMember → List Ident
  | [] => []
  | m :: ms => m.valueNames ++ EnumMember.valueNamesOf ms

def Expr.valueNamesOption : Option Expr → List Ident
  | none => []
  | some e => e.valueNames

end

/-! ### Related results -/

/-- **Related results**: two values that are related, or the same failure twice. -/
inductive Lifted {α β : Type} (R : α → β → Prop) : Except Failure α → Except Failure β → Prop
  | ok {a : α} {b : β} (h : R a b) : Lifted R (.ok a) (.ok b)
  | error (failure : Failure) : Lifted R (.error failure) (.error failure)

section

variable {α β α' β' : Type} {R : α → β → Prop} {Q : α' → β' → Prop}

/-- Values that are related are related results. -/
theorem Lifted.pure {a : α} {b : β} (h : R a b) :
    Lifted R (Pure.pure a : Except Failure α) (Pure.pure b : Except Failure β) :=
  .ok h

/-- The same failure is a related result. -/
theorem Lifted.throw (failure : Failure) :
    Lifted R (MonadExcept.throw failure) (MonadExcept.throw failure) :=
  .error failure

/-- Related results, and what is made of them in related ways. -/
theorem Lifted.bind {x : Except Failure α} {y : Except Failure β} {f : α → Except Failure α'}
    {g : β → Except Failure β'} (h : Lifted R x y)
    (hfg : ∀ a b, R a b → Lifted Q (f a) (g b)) : Lifted Q (x >>= f) (y >>= g) := by
  cases h with
  | ok hab => exact hfg _ _ hab
  | error failure => exact .error failure

/-- Results that do not depend on the place. -/
theorem Lifted.refl {R : α → α → Prop} (hrefl : ∀ a, R a a) (x : Except Failure α) :
    Lifted R x x := by
  cases x with
  | ok a => exact .ok (hrefl a)
  | error failure => exact .error failure

/-- Results that are related by equality are equal. -/
theorem Lifted.eq {x y : Except Failure α} (h : Lifted Eq x y) : x = y := by
  cases h with
  | ok hab => rw [hab]
  | error failure => rfl

private theorem Lifted.succeeds_iff {x : Except Failure α} {y : Except Failure β}
    (h : Lifted R x y) :
    Succeeds x ↔ Succeeds y := by
  cases h with
  | ok hab => simp
  | error failure => simp

private theorem Lifted.error_iff {x : Except Failure α} {y : Except Failure β} (h : Lifted R x y)
    (failure : Failure) : x = .error failure ↔ y = .error failure := by
  cases h with
  | ok hab => simp
  | error other => simp

end

/-- The relation holds between host expressions that are built alike from related parts. -/
structure HostCongruence (R : HostExpr → HostExpr → Prop) : Prop where
  refl : ∀ e, R e e
  call : ∀ f {as bs}, List.Forall₂ R as bs → R (.call f as) (.call f bs)
  method : ∀ m {e e' as bs}, R e e' → List.Forall₂ R as bs → R (.method e m as) (.method e' m bs)
  prefixed : ∀ op {e e'}, R e e' → R (.prefixed op e) (.prefixed op e')
  infixed : ∀ op {l l' r r'}, R l l' → R r r' → R (.infixed op l r) (.infixed op l' r')

/-- Any two host expressions. -/
theorem hostCongruence_true : HostCongruence fun _ _ => True where
  refl _ := trivial
  call _ _ _ _ := trivial
  method _ _ _ _ _ _ _ := trivial
  prefixed _ _ _ _ := trivial
  infixed _ _ _ _ _ _ _ := trivial

/-- Equality respects the forms of expressions. -/
theorem hostCongruence_eq : HostCongruence Eq where
  refl _ := rfl
  call f as bs h := by
    rw [List.forall₂_eq_eq_eq] at h
    rw [h]
  method m e e' as bs he h := by
    rw [List.forall₂_eq_eq_eq] at h
    rw [he, h]
  prefixed op e e' he := by rw [he]
  infixed op l l' r r' hl hr := by rw [hl, hr]

namespace HostCongruence

variable {R : HostExpr → HostExpr → Prop} (hR : HostCongruence R)

include hR

/-- Unary operators respect the relation. -/
theorem unary (op : UnaryOp) {a b : HostExpr} (h : R a b) : R (op.apply a) (op.apply b) := by
  cases op with
  | not => exact hR.prefixed _ h
  | neg => exact hR.prefixed _ h
  | _ => exact hR.method _ h .nil

/-- Binary operators respect the relation. -/
theorem binary (op : BinaryOp) {l l' r r' : HostExpr} (hl : R l l') (hr : R r r') :
    R (op.apply l r) (op.apply l' r') := by
  rw [op.apply_eq_node, op.apply_eq_node]
  unfold BinaryOp.node
  cases op.form with
  | inl sign => exact hR.infixed _ hl hr
  | inr method => exact hR.method _ hl (.cons hr .nil)

/-- Clock edges respect the relation. -/
theorem edge (k : ClockEdge) {p p' : HostExpr} (h : R p p') : R (k.apply p) (k.apply p') := by
  rw [k.apply_eq_method, k.apply_eq_method]
  exact hR.method _ h .nil

end HostCongruence

/-! ### One expression at two places -/

namespace Site

/-- The same site at another place. -/
def movedTo (s : Site) (place : Place) : Site := { s with place := place }

@[simp] theorem movedTo_context (s : Site) (place : Place) :
    (s.movedTo place).context = s.context := rfl

@[simp] theorem movedTo_scope (s : Site) (place : Place) : (s.movedTo place).scope = s.scope := rfl

@[simp] theorem movedTo_place (s : Site) (place : Place) : (s.movedTo place).place = place := rfl

@[simp] theorem movedTo_defect (s : Site) (place : Place) (cause : Cause) :
    (s.movedTo place).defect cause = s.defect cause := rfl

variable {R : HostExpr → HostExpr → Prop} {s : Site} {p q : Place}

/-- The name has related values at the two places, and related proxies. -/
structure NameLifted (R : HostExpr → HostExpr → Prop) (s : Site) (p q : Place) (n : Ident) :
    Prop where
  value : Lifted R ((s.movedTo p).nameValue n) ((s.movedTo q).nameValue n)
  proxy : Lifted R ((s.movedTo p).proxyOf n) ((s.movedTo q).proxyOf n)

/-- The proxies of an expression at two places. -/
private theorem proxy_lifted {e : Expr} (h : ∀ n ∈ e.valueNames, NameLifted R s p q n) :
    Lifted R ((s.movedTo p).proxy e) ((s.movedTo q).proxy e) := by
  cases e with
  | name n => exact (h n (List.mem_singleton_self n)).proxy
  | _ => exact .throw _

mutual

/-- **Values.**  Where the names in an expression are related, its values are. -/
theorem value_lifted (hR : HostCongruence R) : ∀ e : Expr,
    (∀ n ∈ e.valueNames, NameLifted R s p q n) →
      Lifted R ((s.movedTo p).value e) ((s.movedTo q).value e)
  | .name n, h => (h n (List.mem_singleton_self n)).value
  | .literal v, _ => .refl hR.refl _
  | .unary op a, h => (value_lifted hR a h).bind fun _ _ ha => .pure (hR.unary op ha)
  | .binary op a b, h => by
      obtain ⟨ha, hb⟩ := List.forall_mem_append.mp h
      exact (value_lifted hR a ha).bind fun _ _ hl => (value_lifted hR b hb).bind fun _ _ hr =>
        .pure (hR.binary op hl hr)
  | .ternary c a b, h => by
      obtain ⟨hca, hb⟩ := List.forall_mem_append.mp h
      obtain ⟨hc, ha⟩ := List.forall_mem_append.mp hca
      exact (value_lifted hR c hc).bind fun _ _ hc => (value_lifted hR a ha).bind fun _ _ ha =>
        (value_lifted hR b hb).bind fun _ _ hb =>
        .pure (hR.call _ (.cons hc (.cons ha (.cons hb .nil))))
  | .index a i, h => by
      obtain ⟨ha, hi⟩ := List.forall_mem_append.mp h
      exact (value_lifted hR a ha).bind fun _ _ ha => (value_lifted hR i hi).bind fun _ _ hi =>
        .pure (hR.method _ ha (.cons hi .nil))
  | .slice a high low, h => by
      obtain ⟨hah, hl⟩ := List.forall_mem_append.mp h
      obtain ⟨ha, hh⟩ := List.forall_mem_append.mp hah
      exact (value_lifted hR a ha).bind fun _ _ ha => (value_lifted hR high hh).bind fun _ _ hh =>
        (value_lifted hR low hl).bind fun _ _ hl =>
        .pure (hR.method _ ha (.cons hh (.cons hl .nil)))
  | .concat [], _ => .throw _
  | .concat (first :: rest), h => by
      obtain ⟨hfirst, hrest⟩ := List.forall_mem_append.mp h
      exact (value_lifted hR first hfirst).bind fun _ _ hfront =>
        concatValue_lifted hR hfront rest hrest
  | .cast a t, h => by
      obtain ⟨ha, ht⟩ := List.forall_mem_append.mp h
      exact (value_lifted hR a ha).bind fun _ _ ha => (typeValue_lifted hR t ht).bind fun _ _ ht =>
        .pure (hR.method _ ha (.cons ht .nil))
  | .call f args, h => (values_lifted hR args h).bind fun _ _ hargs =>
      (Lifted.refl (R := Eq) (fun _ => rfl) _).bind fun host _ hhost =>
        hhost ▸ .pure (hR.call host hargs)
  | .edge k a, h => (proxy_lifted (e := a) h).bind fun _ _ hp => .pure (hR.edge k hp)
  | .type t, h => typeValue_lifted hR t h

/-- The values of expressions at two places. -/
theorem values_lifted (hR : HostCongruence R) : ∀ es : List Expr,
    (∀ n ∈ Expr.valueNamesOf es, NameLifted R s p q n) →
      Lifted (List.Forall₂ R) ((s.movedTo p).values es) ((s.movedTo q).values es)
  | [], _ => .pure .nil
  | e :: es, h => by
      obtain ⟨he, hes⟩ := List.forall_mem_append.mp h
      exact (value_lifted hR e he).bind fun _ _ hv => (values_lifted hR es hes).bind fun _ _ hvs =>
        .pure (.cons hv hvs)

/-- The values of a concatenation at two places. -/
theorem concatValue_lifted (hR : HostCongruence R) {front front' : HostExpr}
    (hfront : R front front') : ∀ es : List Expr,
    (∀ n ∈ Expr.valueNamesOf es, NameLifted R s p q n) →
      Lifted R ((s.movedTo p).concatValue front es) ((s.movedTo q).concatValue front' es)
  | [], _ => .pure hfront
  | e :: es, h => by
      obtain ⟨he, hes⟩ := List.forall_mem_append.mp h
      exact (value_lifted hR e he).bind fun _ _ hv =>
        concatValue_lifted hR (hR.method _ hfront (.cons hv .nil)) es hes

/-- **Types.**  Related names give related types in two places. -/
theorem typeValue_lifted (hR : HostCongruence R) : ∀ t : Ty,
    (∀ n ∈ t.valueNames, NameLifted R s p q n) →
      Lifted R ((s.movedTo p).typeValue t) ((s.movedTo q).typeValue t)
  | .bits _ _, _ => .pure (hR.refl _)
  | .array t size, h => by
      obtain ⟨ht, hsize⟩ := List.forall_mem_append.mp h
      exact (typeValue_lifted hR t ht).bind fun _ _ ht => (value_lifted hR size hsize).bind
        fun _ _ hsize => .pure (hR.call _ (.cons ht (.cons hsize .nil)))
  | .named n, _ => .refl hR.refl _
  | .enum _, _ => .throw _
  | .typeOfTypes, _ => .throw _

end

/-! ### Names at two places -/

/-- Inside the model a name is refused at one place if it is at the other, for the same reason. -/
theorem nameLifted_inModel (s : Site) (n : Ident) :
    NameLifted (fun _ _ => True) s .constructor .process n := by
  have hsame : ∀ {α : Type} (x : Except Failure α), Lifted (fun _ _ => True) x x :=
    Lifted.refl fun _ => trivial
  have hpath : Lifted (fun _ _ => True) ((s.movedTo .constructor).proxyPath n)
      ((s.movedTo .process).proxyPath n) :=
    (hsame (s.context.host n)).bind fun _ _ _ => .ok trivial
  constructor
  · unfold nameValue
    refine (Lifted.refl (R := Eq) (fun _ => rfl) (s.context.host n)).bind fun host _ hhost => ?_
    subst hhost
    simp only [movedTo_context, movedTo_scope, movedTo_place]
    cases s.scope.get? n with
    | none => exact hsame _
    | some kind =>
        cases kind with
        | proxy => exact hpath.bind fun _ _ _ => .ok trivial
        | constant => exact .ok trivial
        | type => exact hsame _
        | enumMember type => exact hsame _
  · unfold proxyOf
    simp only [movedTo_context, movedTo_scope, movedTo_defect]
    split
    · exact hpath
    · exact hsame _

/-- A name of anything but a signal or a constant is written the same way everywhere. -/
theorem nameLifted_of_not_owns {n : Ident} (h : ¬ s.scope.Owns n) (p q : Place) :
    NameLifted Eq s p q n := by
  obtain ⟨hproxy, hconstant⟩ := not_or.mp h
  have hvalue : (s.movedTo p).nameValue n = (s.movedTo q).nameValue n := by
    unfold nameValue
    simp only [movedTo_context, movedTo_scope]
    cases hkind : s.scope.get? n with
    | none => rfl
    | some kind =>
        cases kind with
        | proxy => exact absurd hkind hproxy
        | constant => exact absurd hkind hconstant
        | type => rfl
        | enumMember type => rfl
  have hproxies : (s.movedTo p).proxyOf n = (s.movedTo q).proxyOf n := by
    unfold proxyOf
    simp only [movedTo_context, movedTo_scope, movedTo_defect]
  exact ⟨hvalue ▸ .refl (fun _ => rfl) _, hproxies ▸ .refl (fun _ => rfl) _⟩

end Site

/-! ### Where there is no model -/

section

variable {s : Site}

mutual

/-- **Where there is no model**, what has a value names no signal and no constant. -/
theorem Mirrors.not_owns (hstatic : s.place = .static) : ∀ {e : Expr} {t : HostExpr},
    Mirrors s e t → ∀ n ∈ e.valueNames, ¬ s.scope.Owns n
  | _, _, .name hn =>
      List.forall_mem_singleton.mpr fun hown => hn.hasValue.inModel hown hstatic
  | _, _, .literal _ => by simp [Expr.valueNames]
  | _, _, .unary _ ha => ha.not_owns hstatic
  | _, _, .binary _ ha hb =>
      List.forall_mem_append.mpr ⟨ha.not_owns hstatic, hb.not_owns hstatic⟩
  | _, _, .ternary hc ha hb =>
      List.forall_mem_append.mpr ⟨List.forall_mem_append.mpr
        ⟨hc.not_owns hstatic, ha.not_owns hstatic⟩, hb.not_owns hstatic⟩
  | _, _, .index ha hi =>
      List.forall_mem_append.mpr ⟨ha.not_owns hstatic, hi.not_owns hstatic⟩
  | _, _, .slice ha hh hl =>
      List.forall_mem_append.mpr ⟨List.forall_mem_append.mpr
        ⟨ha.not_owns hstatic, hh.not_owns hstatic⟩, hl.not_owns hstatic⟩
  | _, _, .concat ha has =>
      List.forall_mem_append.mpr ⟨ha.not_owns hstatic, has.not_owns hstatic⟩
  | _, _, .cast ha htype =>
      List.forall_mem_append.mpr ⟨ha.not_owns hstatic, htype.not_owns hstatic⟩
  | _, _, .call _ has => has.not_owns hstatic
  | _, _, .edge _ _ hn =>
      absurd hstatic (Site.ProxyReference.exists_iff.mp ⟨_, hn⟩).2
  | _, _, .type htype => htype.not_owns hstatic

/-- Where there is no model, expressions own nothing of one. -/
theorem MirrorsAll.not_owns (hstatic : s.place = .static) : ∀ {es : List Expr}
    {ts : List HostExpr}, MirrorsAll s es ts → ∀ n ∈ Expr.valueNamesOf es, ¬ s.scope.Owns n
  | _, _, .nil => by simp [Expr.valueNamesOf]
  | _, _, .cons ha has =>
      List.forall_mem_append.mpr ⟨ha.not_owns hstatic, has.not_owns hstatic⟩

/-- Where there is no model, a type owns nothing of one. -/
theorem TypeMirrors.not_owns (hstatic : s.place = .static) : ∀ {type : Ty} {t : HostExpr},
    TypeMirrors s type t → ∀ n ∈ type.valueNames, ¬ s.scope.Owns n
  | _, _, .bits _ _ => by simp [Ty.valueNames]
  | _, _, .array helement hsize =>
      List.forall_mem_append.mpr ⟨helement.not_owns hstatic, hsize.not_owns hstatic⟩
  | _, _, .own _ _ => by simp [Ty.valueNames]
  | _, _, .foreign _ _ => by simp [Ty.valueNames]

end

end

/-! ### The three places -/

/-- **Results at the three places**, for something in which these names stand for values.  Inside
the model the constructor and the processes accept the same, and where they refuse, they do so with
the same failure.  Where there is no model, what is accepted is that in which no signal and no
constant is named; it is then the same expression everywhere. -/
structure PlacesAgree (scope : Scope) (names : List Ident)
    (result : Place → Except Failure HostExpr) : Prop where
  accepted : Succeeds (result .constructor) ↔ Succeeds (result .process)
  refused : ∀ failure, result .constructor = .error failure ↔ result .process = .error failure
  static : Succeeds (result .static) ↔
    Succeeds (result .process) ∧ ∀ n ∈ names, ¬ scope.Owns n
  same : ∀ t, result .static = .ok t → result .constructor = .ok t ∧ result .process = .ok t

/-- What decides the agreement: related results inside the model, equal ones without names of
signals and constants, and no result with such names where there is no model. -/
theorem placesAgree_of_parts {scope : Scope} {names : List Ident}
    {result : Place → Except Failure HostExpr}
    (hmodel : Lifted (fun _ _ => True) (result .constructor) (result .process))
    (hsame : (∀ n ∈ names, ¬ scope.Owns n) → ∀ p q, result p = result q)
    (hstatic : ∀ t, result .static = .ok t → ∀ n ∈ names, ¬ scope.Owns n) :
    PlacesAgree scope names result where
  accepted := hmodel.succeeds_iff
  refused := hmodel.error_iff
  static := by
    constructor
    · rintro ⟨t, ht⟩
      have hnames := hstatic t ht
      exact ⟨⟨t, (hsame hnames .process .static).trans ht⟩, hnames⟩
    · rintro ⟨⟨t, ht⟩, hnames⟩
      exact ⟨t, (hsame hnames .static .process).trans ht⟩
  same t ht :=
    ⟨(hsame (hstatic t ht) .constructor .static).trans ht,
      (hsame (hstatic t ht) .process .static).trans ht⟩

/-- **The place decides the spelling and not the acceptance**, for all expressions and all types. -/
theorem places_agree (s : Site) :
    (∀ e : Expr, PlacesAgree s.scope e.valueNames fun place => (s.movedTo place).value e) ∧
      ∀ t : Ty, PlacesAgree s.scope t.valueNames fun place => (s.movedTo place).typeValue t := by
  constructor
  · intro e
    refine placesAgree_of_parts (Site.value_lifted hostCongruence_true e fun n _ =>
      s.nameLifted_inModel n) ?_ ?_
    · intro hnames p q
      exact (Site.value_lifted hostCongruence_eq e fun n hn =>
        Site.nameLifted_of_not_owns (hnames n hn) p q).eq
    · intro t ht
      exact (Site.value_mirrors ht).not_owns rfl
  · intro t
    refine placesAgree_of_parts (Site.typeValue_lifted hostCongruence_true t fun n _ =>
      s.nameLifted_inModel n) ?_ ?_
    · intro hnames p q
      exact (Site.typeValue_lifted hostCongruence_eq t fun n hn =>
        Site.nameLifted_of_not_owns (hnames n hn) p q).eq
    · intro t ht
      exact (Site.typeValue_mirrors ht).not_owns rfl

end HdlSim
