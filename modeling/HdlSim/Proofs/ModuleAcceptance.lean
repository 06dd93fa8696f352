import HdlSim.Proofs.Acceptance

/-!
# Models are made of exactly the well-formed modules

The parts of a model are written one after another, and each of them is written exactly if the part
of the module that it stands for is well formed.  A part may be looked at more than once: an
instance, for example, when it is imported, declared, made, tied to signals and registered.  Taken
together, the model is written exactly if the module is well formed (`lowerModule_succeeds_iff`).
-/

namespace HdlSim

/-! ### Names that collide -/

namespace Scope

/-- The host identifier of a name is not taken for another name. -/
def Free (names : NameTable) (taken : List (HostName × Ident)) (n : Ident) : Prop :=
  ∀ text first, names.resolve? n = some text → taken.lookup (HostName.escape text) = some first →
    first = n

/-- **One name.**  Afterwards the identifier of the name is taken for it, and the others are taken
as before. -/
theorem reserve_ok {c : Context} {taken taken' : List (HostName × Ident)} {n : Ident}
    (h : reserve c taken n = .ok taken') :
    ∃ text, c.names.resolve? n = some text ∧ ∀ host first, taken'.lookup host = some first ↔
      (host = HostName.escape text ∧ first = n) ∨ taken.lookup host = some first := by
  obtain ⟨host, hhost, hlookup⟩ := Except.bind_eq_ok_iff.mp h
  obtain ⟨text, htext, rfl⟩ := Context.host_eq_ok_iff.mp hhost
  refine ⟨text, htext, fun other first => ?_⟩
  split at hlookup
  · rename_i hnone
    obtain rfl := Except.pure_eq_ok_iff.mp hlookup
    by_cases hother : other = HostName.escape text
    · subst hother
      simp [hnone, eq_comm]
    · have hbeq : (other == HostName.escape text) = false := by simpa using hother
      simp [List.lookup_cons, hbeq, hother]
  · rename_i first' hsome
    by_cases hfirst : first' = n
    · rw [if_pos hfirst] at hlookup
      obtain rfl := Except.pure_eq_ok_iff.mp hlookup
      constructor
      · exact .inr
      · rintro (⟨rfl, rfl⟩ | hold)
        · rw [hsome, hfirst]
        · exact hold
    · rw [if_neg hfirst] at hlookup
      obtain ⟨name, -, hrest⟩ := Except.bind_eq_ok_iff.mp hlookup
      obtain ⟨firstName, -, hthrow⟩ := Except.bind_eq_ok_iff.mp hrest
      simp at hthrow

/-- A name is reserved if it has a text, and its identifier is not taken. -/
private theorem reserve_succeeds_iff {c : Context} {taken : List (HostName × Ident)} {n : Ident} :
    Succeeds (reserve c taken n) ↔ c.names.Resolves n ∧ Free c.names taken n := by
  constructor
  · rintro ⟨taken', h⟩
    obtain ⟨text, htext, hiff⟩ := reserve_ok h
    refine ⟨⟨text, htext⟩, fun text' first htext' hfirst => ?_⟩
    obtain rfl : text = text' := Option.some.inj (htext.symm.trans htext')
    have hown : taken'.lookup (HostName.escape text) = some n := (hiff _ _).mpr (.inl ⟨rfl, rfl⟩)
    have hkept : taken'.lookup (HostName.escape text) = some first := (hiff _ _).mpr (.inr hfirst)
    exact Option.some.inj (hkept.symm.trans hown)
  · rintro ⟨⟨text, htext⟩, hfree⟩
    have hhost : c.host n = .ok (HostName.escape text) :=
      Context.host_eq_ok_iff.mpr ⟨text, htext, rfl⟩
    unfold reserve
    rw [hhost]
    cases hlookup : taken.lookup (HostName.escape text) with
    | none => exact ⟨(HostName.escape text, n) :: taken, by simp [hlookup, bind, Except.bind]⟩
    | some first =>
        have hfirst : first = n := hfree text first htext hlookup
        exact ⟨taken, by simp [hlookup, hfirst, bind, Except.bind]⟩

/-- A name is free afterwards if it was free before and does not collide with the new one. -/
theorem free_reserve_iff {c : Context} {taken taken' : List (HostName × Ident)} {n m : Ident}
    (h : reserve c taken n = .ok taken') :
    Free c.names taken' m ↔ Free c.names taken m ∧ Apart c.names n m := by
  obtain ⟨text, htext, hiff⟩ := reserve_ok h
  constructor
  · intro hfree
    constructor
    · intro text' first htext' hfirst
      exact hfree text' first htext' ((hiff _ _).mpr (.inr hfirst))
    · intro text₁ text' htext₁ htext' hescape
      obtain rfl : text = text₁ := Option.some.inj (htext.symm.trans htext₁)
      exact hfree text' n htext' ((hiff _ _).mpr (.inl ⟨hescape.symm, rfl⟩))
  · rintro ⟨hfree, hapart⟩ text' first htext' hfirst
    rcases (hiff _ _).mp hfirst with ⟨hescape, rfl⟩ | hold
    · exact hapart text text' htext htext' hescape.symm
    · exact hfree text' first htext' hold

/-- One more name in front that collides with none of the others. -/
private theorem noCollision_cons_iff {names : NameTable} {n : Ident} {ns : List Ident} :
    NoCollision names (n :: ns) ↔ (∀ m ∈ ns, Apart names n m) ∧ NoCollision names ns := by
  have hsymm : ∀ {n m}, Apart names n m → Apart names m n :=
    fun h text text' htext htext' hescape => (h text' text htext' htext hescape.symm).symm
  have hself : Apart names n n := fun _ _ _ _ _ => rfl
  simp only [NoCollision, List.forall_mem_cons]
  constructor
  · rintro ⟨⟨-, hn⟩, hrest⟩
    exact ⟨hn, fun m hm => (hrest m hm).2⟩
  · rintro ⟨hn, hrest⟩
    exact ⟨⟨hself, hn⟩, fun m hm => ⟨hsymm (hn m hm), hrest m hm⟩⟩

/-- With some identifiers taken, the names in a list can be taken one after another exactly if they
are known, free and without collisions among themselves. -/
theorem foldlM_reserve_succeeds_iff {c : Context} {ns : List Ident}
    {taken : List (HostName × Ident)} : Succeeds (ns.foldlM (reserve c) taken) ↔
      (∀ n ∈ ns, c.names.Resolves n) ∧ (∀ n ∈ ns, Free c.names taken n) ∧
        NoCollision c.names ns := by
  induction ns generalizing taken with
  | nil => simp [NoCollision]
  | cons n ns ih =>
      rw [List.foldlM_cons, succeeds_bind (p := (∀ m ∈ ns, c.names.Resolves m) ∧
        (∀ m ∈ ns, Free c.names taken m ∧ Apart c.names n m) ∧ NoCollision c.names ns)]
      · rw [reserve_succeeds_iff, noCollision_cons_iff]
        simp only [List.forall_mem_cons]
        constructor
        · rintro ⟨⟨hresolves, hfree⟩, hresolvess, hfrees, hapart⟩
          exact ⟨⟨hresolves, hresolvess⟩, ⟨hfree, fun m hm => (hfrees m hm).1⟩,
            fun m hm => (hfrees m hm).2, hapart⟩
        · rintro ⟨⟨hresolves, hresolvess⟩, ⟨hfree, hfrees⟩, hn, hapart⟩
          exact ⟨⟨hresolves, hfree⟩, hresolvess, fun m hm => ⟨hfrees m hm, hn m hm⟩, hapart⟩
      · intro taken' hreserve
        rw [ih]
        simp only [free_reserve_iff hreserve]

/-- **Collisions.**  Names can be taken exactly if they are known and no two of them collide. -/
theorem reserveAll_succeeds_iff {c : Context} {ns : List Ident} :
    Succeeds (reserveAll c ns) ↔ (∀ n ∈ ns, c.names.Resolves n) ∧ NoCollision c.names ns := by
  have hfree : ∀ n ∈ ns, Free c.names [] n := fun _ _ _ _ _ h => by simp at h
  unfold reserveAll
  rw [succeeds_bind (p := True) fun _ _ => by simp, foldlM_reserve_succeeds_iff]
  simp only [and_true, iff_true_intro hfree, true_and]

/-- A scope that can be built is the scope of the body. -/
theorem build_ok {c : Context} {ports : List Variable} {body : Body} {scope : Scope}
    (h : build c ports body = .ok scope) : scope = ofBody ports body := by
  obtain ⟨_, -, hrest⟩ := Except.bind_eq_ok_iff.mp h
  obtain ⟨_, -, hpure⟩ := Except.bind_eq_ok_iff.mp hrest
  exact (Except.pure_eq_ok_iff.mp hpure).symm

/-- **A scope can be built** if and only if the names of fields have texts and do not collide, and
so with those of functions. -/
theorem build_succeeds_iff {c : Context} {ports : List Variable} {body : Body} :
    Succeeds (build c ports body) ↔
      ((∀ n ∈ fieldNames ports body, c.names.Resolves n) ∧
        NoCollision c.names (fieldNames ports body)) ∧
      (∀ n ∈ functionNames body, c.names.Resolves n) ∧
        NoCollision c.names (functionNames body) := by
  unfold build
  rw [succeeds_unit_bind, succeeds_unit_bind]
  simp only [reserveAll_succeeds_iff, succeeds_pure, and_true]

end Scope

/-! ### Types -/

/-- The name of a well-formed type is known. -/
theorem TypeItem.WellFormed.resolves {names : NameTable} {scope : Scope} {t : TypeItem}
    (h : t.WellFormed names scope) : names.Resolves t.name := by
  cases h <;> assumption

namespace Site

/-- The members of an enumeration have names if they are well-formed. -/
private theorem memberNames_succeeds_iff {s : Site} {members : List EnumMember} :
    Succeeds (s.memberNames members) ↔ ∀ m ∈ members, m.WellFormed s.context.names := by
  induction members with
  | nil => simp [memberNames]
  | cons m members ih =>
      obtain ⟨n, value⟩ := m
      cases value with
      | some value =>
          have hvalue : ¬ (⟨n, some value⟩ : EnumMember).WellFormed s.context.names := by
            rintro ⟨hbare, -⟩
            cases hbare
          simp [memberNames, hvalue]
      | none =>
          have hfirst : (⟨n, none⟩ : EnumMember).WellFormed s.context.names ↔
              s.context.names.Resolves n := ⟨fun h => h.resolves, fun h => ⟨rfl, h⟩⟩
          rw [memberNames, succeeds_bind fun name _ => succeeds_bind (p := True) fun _ _ => by simp,
            Context.name_succeeds_iff, ih, and_true, List.forall_mem_cons, hfirst]

/-- An enumeration has a value if its members are well-formed. -/
theorem enumValue_succeeds_iff {s : Site} {name : String} {members : List EnumMember} :
    Succeeds (s.enumValue name members) ↔ ∀ m ∈ members, m.WellFormed s.context.names := by
  unfold enumValue
  rw [succeeds_bind (p := True) fun _ _ => by simp, memberNames_succeeds_iff, and_true]

/-- **Declared types.**  A declared type has a value if and only if it is well formed. -/
theorem typeItemValue_succeeds_iff {s : Site} (hplace : s.place = .static) {t : TypeItem} :
    Succeeds (s.typeItemValue t) ↔ t.WellFormed s.context.names s.scope := by
  have hname : ∀ {f : String → Except Failure HostExpr} {p : Prop},
      (∀ name, Succeeds (f name) ↔ p) →
        (Succeeds (s.context.name t.name >>= f) ↔ s.context.names.Resolves t.name ∧ p) :=
    fun h => (succeeds_bind fun name _ => h name).trans
      (and_congr_left' Context.name_succeeds_iff)
  cases t with
  | enum d =>
      refine (hname fun name => enumValue_succeeds_iff).trans ?_
      exact ⟨fun ⟨hn, hmembers⟩ => .enum hn hmembers,
        fun (.enum hn hmembers) => ⟨hn, hmembers⟩⟩
  | array d =>
      refine (hname fun name => typeValue_succeeds_iff).trans ?_
      rw [hplace]
      exact ⟨fun ⟨hn, .array helement hsize⟩ => .array hn helement hsize,
        fun (.array hn helement hsize) => ⟨hn, .array helement hsize⟩⟩
  | synonym d =>
      refine (hname (p := (∃ members, d.value = some (.type (.enum members)) ∧
          ∀ m ∈ members, m.WellFormed s.context.names) ∨
        ∃ type, d.value = some (.type type) ∧
          type.WellFormed s.context.names s.scope .static) fun name => ?_).trans ?_
      · dsimp only
        split
        · rename_i members hvalue
          rw [enumValue_succeeds_iff, hvalue]
          refine ⟨fun h => .inl ⟨members, rfl, h⟩, ?_⟩
          rintro (⟨_, ⟨⟩, h⟩ | ⟨_, ⟨⟩, ⟨⟩⟩)
          exact h
        · rename_i hvalue
          rw [hvalue]
          refine ⟨fun h => absurd h (by simp), ?_⟩
          rintro (⟨_, ⟨⟩, _⟩ | ⟨_, ⟨⟩, ⟨⟩⟩)
        · rename_i type hnotEnum hnotMeta hvalue
          rw [typeValue_succeeds_iff, hplace, hvalue]
          refine ⟨fun h => .inr ⟨type, rfl, h⟩, ?_⟩
          rintro (⟨members, ⟨⟩, _⟩ | ⟨_, ⟨⟩, h⟩)
          · exact absurd rfl (hnotEnum members)
          · exact h
        · rename_i _ _ hother
          refine ⟨fun h => absurd h (by simp), ?_⟩
          rintro (⟨members, hvalue, _⟩ | ⟨type, hvalue, _⟩)
          · exact absurd hvalue (hother _)
          · exact absurd hvalue (hother _)
      · constructor
        · rintro ⟨hn, ⟨members, hvalue, hmembers⟩ | ⟨type, hvalue, htype⟩⟩
          · exact .enumSynonym hn hvalue hmembers
          · exact .synonym hn hvalue htype
        · intro h
          cases h with
          | enumSynonym hn hvalue hmembers => exact ⟨hn, .inl ⟨_, hvalue, hmembers⟩⟩
          | synonym hn hvalue htype => exact ⟨hn, .inr ⟨_, hvalue, htype⟩⟩

private theorem initValue_succeeds_iff {s : Site} {e : Option Expr} :
    Succeeds (s.initValue e) ↔ ∀ v ∈ e, v.WellFormed s.context.names s.scope s.place := by
  cases e with
  | none => simp [initValue]
  | some e =>
      rw [initValue, succeeds_bind (p := True) fun _ _ => by simp, value_succeeds_iff]
      simp

end Site

namespace Model

open Script

/-! ### Declarations -/

@[simp] theorem site_context (m : Model) (place : Place) (object : String) :
    (m.site place object).context = m.context := rfl

@[simp] theorem site_scope (m : Model) (place : Place) (object : String) :
    (m.site place object).scope = m.scope := rfl

/-- The place of a site of the model. -/
@[simp] theorem site_place (m : Model) (place : Place) (object : String) :
    (m.site place object).place = place := rfl

/-- The function for a type is written if the type is well-formed. -/
private theorem typeFunction_succeeds_iff {m : Model} {t : TypeItem} :
    Succeeds (m.typeFunction t).outcome ↔ t.WellFormed m.context.names m.scope := by
  unfold typeFunction
  refine (succeeds_lift (p := t.WellFormed m.context.names m.scope) fun name _ => ?_).trans ?_
  · refine (succeeds_lift (p := m.context.names.Resolves t.name) fun value _ => ?_).trans ?_
    · simp [Context.host_succeeds_iff]
    · rw [Site.typeItemValue_succeeds_iff rfl]
      exact and_iff_left_of_imp TypeItem.WellFormed.resolves
  · rw [Context.name_succeeds_iff]
    exact and_iff_right_of_imp TypeItem.WellFormed.resolves

/-- **Declarations.**  A variable is declared if and only if it is well formed. -/
theorem declaration_succeeds_iff {m : Model} {kind : String} {d : Variable} :
    Succeeds (m.declaration kind d).outcome ↔ d.WellFormed m.context.names m.scope := by
  have hparts : d.WellFormed m.context.names m.scope ↔ m.context.names.Resolves d.name ∧
      (d.isConst = true → ∃ e, d.value = some e ∧
        e.WellFormed m.context.names m.scope .constructor) ∧
      (d.isConst = false → d.type.WellFormed m.context.names m.scope .constructor ∧
        ∀ e ∈ d.value, e.WellFormed m.context.names m.scope .constructor) :=
    ⟨fun ⟨hname, hconst, hsignal⟩ => ⟨hname, hconst, hsignal⟩,
      fun ⟨hname, hconst, hsignal⟩ => ⟨hname, hconst, hsignal⟩⟩
  rw [hparts]
  unfold declaration
  refine (succeeds_lift fun name hname => ?_).trans (and_congr_left' Context.name_succeeds_iff)
  have hhost : Succeeds (m.context.host d.name) :=
    Context.host_succeeds_iff.mpr (Context.name_succeeds_iff.mp ⟨name, hname⟩)
  refine (succeeds_lift fun host _ => ?_).trans (and_iff_right hhost)
  rw [outcome_bind, succeeds_unit_bind, outcome_doc]
  cases hconst : d.isConst with
  | true =>
      cases hvalue : d.value with
      | none => simp
      | some e => simp [Site.value_succeeds_iff]
  | false =>
      simp only [succeeds_ok, true_and, Bool.false_eq_true, if_false, false_implies, true_implies]
      refine (succeeds_lift fun type _ => ?_).trans (and_congr_left' Site.typeValue_succeeds_iff)
      rw [succeeds_lift_line, Site.initValue_succeeds_iff]
      rfl

/-- An instance is made if its name and that of its module have texts. -/
private theorem instanceLocal_succeeds_iff {m : Model} {i : Instance} :
    Succeeds (m.instanceLocal i).outcome ↔
      m.context.names.Resolves i.name ∧ m.context.names.Resolves i.moduleName := by
  unfold instanceLocal
  rw [outcome_bind, succeeds_unit_bind, outcome_doc, and_iff_right (succeeds_ok ())]
  refine (succeeds_lift fun host hhost => ?_).trans (and_congr_left' Context.host_succeeds_iff)
  have hname : Succeeds (m.context.name i.name) :=
    Context.name_succeeds_iff.mpr (Context.host_succeeds_iff.mp ⟨host, hhost⟩)
  simp [Context.host_succeeds_iff, hname]

private theorem headed_succeeds_iff {α : Type} {heading : String} {xs : List α}
    {f : α → Script Unit} :
    Succeeds (headed heading xs f).outcome ↔ ∀ x ∈ xs, Succeeds (f x).outcome := by
  cases xs with
  | nil => simp [headed]
  | cons x xs => simp [headed, succeeds_forEach]

/-- A field is given its value if its name has a text. -/
theorem fieldInit_succeeds_iff {m : Model} {n : Ident} :
    Succeeds (m.fieldInit n).outcome ↔ m.context.names.Resolves n :=
  succeeds_lift_line.trans Context.host_succeeds_iff

/-- The bundle of proxies is made if the names of the signals have texts. -/
private theorem ioValue_succeeds_iff {m : Model} :
    Succeeds m.ioValue.outcome ↔ ∀ d ∈ m.signals, m.context.names.Resolves d.name := by
  unfold ioValue
  cases m.signals with
  | nil => simp
  | cons d ds => simp [succeeds_forEach, fieldInit_succeeds_iff]

/-- The constructor looks at types, declarations and instances. -/
theorem constructor_succeeds_iff {m : Model} :
    Succeeds m.constructor.outcome ↔
      (∀ t ∈ m.body.types, t.WellFormed m.context.names m.scope) ∧
      (∀ d ∈ m.decls, d.WellFormed m.context.names m.scope) ∧
      ∀ i ∈ m.body.instances,
        m.context.names.Resolves i.name ∧ m.context.names.Resolves i.moduleName := by
  unfold constructor selfValue
  simp only [outcome_bind, succeeds_unit_bind, outcome_enter, outcome_line, outcome_leave,
    outcome_blank, succeeds_ok, true_and, and_true, succeeds_forEach, headed_succeeds_iff,
    typeFunction_succeeds_iff, declaration_succeeds_iff, instanceLocal_succeeds_iff,
    ioValue_succeeds_iff, fieldInit_succeeds_iff]
  constructor
  · rintro ⟨htypes, hports, hvars, hinstances, -⟩
    exact ⟨htypes, List.forall_mem_append.mpr ⟨hports, hvars⟩, hinstances⟩
  · rintro ⟨htypes, hdecls, hinstances⟩
    obtain ⟨hports, hvars⟩ := List.forall_mem_append.mp hdecls
    have hnames : ∀ d ∈ m.decls, m.context.names.Resolves d.name := fun d hd =>
      (hdecls d hd).resolves
    exact ⟨htypes, hports, hvars, hinstances,
      fun d hd => hnames d (List.mem_filter.mp hd).1,
      fun d hd => hnames d (List.mem_filter.mp hd).1, fun i hi => (hinstances i hi).1⟩

/-! ### Structures -/

/-- The structures are written if the names of their fields have texts. -/
private theorem structures_succeeds_iff {m : Model} :
    Succeeds m.structures.outcome ↔
      (∀ d ∈ m.constants, m.context.names.Resolves d.name) ∧
      (∀ i ∈ m.body.instances,
        m.context.names.Resolves i.name ∧ m.context.names.Resolves i.moduleName) ∧
      ∀ d ∈ m.signals, m.context.names.Resolves d.name := by
  unfold structures
  simp only [outcome_bind, outcome_doc, outcome_enter, outcome_line, outcome_leave, outcome_blank,
    outcome_lift, succeeds_unit_bind, succeeds_ok, succeeds_forEach, true_and, and_true]
  simp [Context.host_succeeds_iff]

/-- Imports are written if the names of the modules have texts. -/
private theorem imports_succeeds_of_forall {m : Model} {settings : Settings}
    (h : ∀ i ∈ m.body.instances, m.context.names.Resolves i.moduleName) :
    Succeeds (m.imports settings).outcome := by
  unfold imports
  cases settings.modulePath with
  | none => simp
  | some path =>
      have hnames : Succeeds m.importNames := by
        unfold importNames
        rw [succeeds_bind_of_forall (by simp), Context.hosts_succeeds_iff]
        simpa using h
      refine (succeeds_lift (p := True) fun names _ => ?_).mpr ⟨hnames, trivial⟩
      split <;> simp

/-! ### Registration -/

/-- An instance is connected if it is connected to signals. -/
private theorem connections_succeeds_iff {m : Model} {i : Instance} :
    Succeeds (m.connections i).outcome ↔ m.context.names.Resolves i.name ∧
      ∀ b ∈ i.portMap,
        IsSignal m.context.names m.scope .process b.signal ∧ m.context.names.Resolves b.port := by
  unfold connections
  refine (succeeds_lift fun name hname => ?_).trans (and_congr_left' Context.name_succeeds_iff)
  have hhost : Succeeds (m.context.host i.name) :=
    Context.host_succeeds_iff.mpr (Context.name_succeeds_iff.mp ⟨name, hname⟩)
  refine (succeeds_lift fun host _ => ?_).trans (and_iff_right hhost)
  simp [succeeds_forEach, Context.host_succeeds_iff, Site.proxyOf_succeeds_iff]

end Model

/-! ### Sensitivity -/

/-- What is watched is a signal, or a clock edge of one. -/
private theorem Expr.isWatched_iff {names : NameTable} {scope : Scope} {e : Expr} :
    e.IsWatched names scope ↔
      ∃ t, e.trigger? = some t ∧ IsSignal names scope .process t.signal := by
  constructor
  · intro h
    cases h with
    | name hn => exact ⟨_, rfl, hn⟩
    | edge edge hn =>
        cases edge with
        | rising => exact ⟨_, rfl, hn⟩
        | falling => exact ⟨_, rfl, hn⟩
  · rintro ⟨t, ht, hn⟩
    unfold Expr.trigger? at ht
    split at ht
    · obtain rfl := Option.some.inj ht
      exact .name hn
    · obtain rfl := Option.some.inj ht
      exact .edge .rising hn
    · obtain rfl := Option.some.inj ht
      exact .edge .falling hn
    · cases ht

namespace Site

/-- The triggers of a sensitivity list are those of its entries, in order. -/
theorem triggers_eq_ok_iff {s : Site} {sensitivity : List Expr} {ts : List Trigger} :
    s.triggers sensitivity = .ok ts ↔ sensitivity.map Expr.trigger? = ts.map some := by
  unfold triggers
  rw [Except.mapM_eq_ok_iff]
  induction sensitivity generalizing ts with
  | nil => simp
  | cons e es ih =>
      cases ts with
      | nil => simp
      | cons t ts =>
          simp only [List.map_cons, List.cons.injEq, ih]
          cases e.trigger? <;> simp

/-- Triggers are written if they are about signals. -/
theorem hostTriggers_succeeds_iff {s : Site} {ts : List Trigger} :
    Succeeds (s.hostTriggers ts) ↔
      ∀ t ∈ ts, IsSignal s.context.names s.scope s.place t.signal := by
  have hone : ∀ t, Succeeds (s.hostTrigger t) ↔
      IsSignal s.context.names s.scope s.place t.signal :=
    fun t => (succeeds_bind_of_forall fun _ => succeeds_pure _).trans proxyOf_succeeds_iff
  unfold hostTriggers
  rw [succeeds_mapM]
  simp only [hone]

/-- Some names have proxies if and only if they are signals. -/
theorem proxiesOf_succeeds_iff {s : Site} {ns : List Ident} :
    Succeeds (s.proxiesOf ns) ↔ ∀ n ∈ ns, IsSignal s.context.names s.scope s.place n := by
  unfold proxiesOf
  rw [succeeds_mapM]
  simp only [proxyOf_succeeds_iff]

/-- **Sensitivity lists.**  All entries are watched exactly if they are triggers on signals. -/
theorem watched_iff {s : Site} (hplace : s.place = .process) {sensitivity : List Expr} :
    (∀ e ∈ sensitivity, e.IsWatched s.context.names s.scope) ↔
      ∃ ts, s.triggers sensitivity = .ok ts ∧
        ∀ t ∈ ts, IsSignal s.context.names s.scope s.place t.signal := by
  simp only [triggers_eq_ok_iff, hplace]
  induction sensitivity with
  | nil => exact ⟨fun _ => ⟨[], by simp⟩, fun _ => by simp⟩
  | cons e es ih =>
      rw [List.forall_mem_cons, Expr.isWatched_iff, ih]
      constructor
      · rintro ⟨⟨t, ht, hn⟩, ts, hts, hns⟩
        exact ⟨t :: ts, by simp [ht, hts], List.forall_mem_cons.mpr ⟨hn, hns⟩⟩
      · rintro ⟨ts, hts, hns⟩
        cases ts with
        | nil => simp at hts
        | cons t ts =>
            obtain ⟨ht, hts⟩ := List.cons.inj hts
            obtain ⟨hn, hns⟩ := List.forall_mem_cons.mp hns
            exact ⟨⟨t, ht, hn⟩, ts, hts, hns⟩

/-- What is done with the triggers of a sensitivity list. -/
theorem succeeds_triggers {s : Site} (hplace : s.place = .process) {sensitivity : List Expr}
    {β : Type} {f : List Trigger → List HostTrigger → Except Failure β} {p : Prop}
    (h : ∀ ts hosts, (∀ t ∈ ts, IsSignal s.context.names s.scope s.place t.signal) →
      (Succeeds (f ts hosts) ↔ p)) :
    Succeeds (s.triggers sensitivity >>= fun ts => s.hostTriggers ts >>= f ts) ↔
      (∀ e ∈ sensitivity, e.IsWatched s.context.names s.scope) ∧ p := by
  rw [watched_iff hplace]
  constructor
  · rintro ⟨b, hb⟩
    obtain ⟨ts, hts, hb⟩ := Except.bind_eq_ok_iff.mp hb
    obtain ⟨hosts, hhosts, hb⟩ := Except.bind_eq_ok_iff.mp hb
    have hsignals := hostTriggers_succeeds_iff.mp ⟨hosts, hhosts⟩
    exact ⟨⟨ts, hts, hsignals⟩, (h ts hosts hsignals).mp ⟨b, hb⟩⟩
  · rintro ⟨⟨ts, hts, hsignals⟩, hp⟩
    obtain ⟨hosts, hhosts⟩ := hostTriggers_succeeds_iff.mpr hsignals
    obtain ⟨b, hb⟩ := (h ts hosts hsignals).mpr hp
    exact ⟨b, Except.bind_eq_ok_iff.mpr ⟨ts, hts, Except.bind_eq_ok_iff.mpr ⟨hosts, hhosts, hb⟩⟩⟩

end Site

namespace Model

open Script

/-- **Registered processes.**  A process is registered if and only if its label has a name, what it
watches can be watched, and its outputs are known and are signals. -/
theorem registration_succeeds_iff {m : Model} {p : ProcessDecl} :
    Succeeds (m.registration p).outcome ↔ m.context.names.Resolves p.label ∧
      (∀ e ∈ p.sensitivity, e.IsWatched m.context.names m.scope) ∧
      ∃ outputs, p.outputs = some outputs ∧
        ∀ n ∈ outputs, IsSignal m.context.names m.scope .process n := by
  have htexts : ∀ {ns : List Ident}, (∀ n ∈ ns, IsSignal m.context.names m.scope .process n) →
      Succeeds (m.context.texts ns) :=
    fun h => Context.texts_succeeds_iff.mpr fun n hn => (h n hn).resolves
  unfold registration
  refine (succeeds_lift fun label _ => ?_).trans (and_congr_left' Context.name_succeeds_iff)
  simp only [outcome_bind, outcome_lift]
  refine Site.succeeds_triggers rfl fun ts hosts hsignals => ?_
  have hwatched : ∀ n ∈ ts.map Trigger.signal, IsSignal m.context.names m.scope .process n := by
    simpa using hsignals
  cases p.outputs with
  | none => simp
  | some outputs =>
      simp only [Option.some.injEq, exists_eq_left']
      refine (succeeds_lift (p := True) fun proxies hproxies => ?_).trans
        ((and_iff_left trivial).trans Site.proxiesOf_succeeds_iff)
      have hdriven : ∀ n ∈ outputs, IsSignal m.context.names m.scope .process n :=
        Site.proxiesOf_succeeds_iff.mp ⟨proxies, hproxies⟩
      simp [-bind_pure_comp, htexts hwatched, htexts hdriven]

/-- The function that registers everything is written if each of its parts can be. -/
private theorem initBody_succeeds_iff {m : Model} :
    Succeeds m.initBody.outcome ↔
      (∀ i ∈ m.body.instances, Succeeds (m.connections i).outcome) ∧
      (∀ d ∈ m.constants, m.context.names.Resolves d.name) ∧
      (∀ d ∈ m.signals, m.context.names.Resolves d.name) ∧
      (∀ p ∈ m.body.processes, m.context.names.Resolves p.label) ∧
      (∀ i ∈ m.body.instances, m.context.names.Resolves i.name) ∧
      ∀ p ∈ m.body.processes, Succeeds (m.registration p).outcome := by
  have htexts : ∀ {α : Type} {xs : List α} {f : α → Ident},
      Succeeds (m.context.texts (xs.map f)) ↔ ∀ x ∈ xs, m.context.names.Resolves (f x) := by
    simp [Context.texts_succeeds_iff]
  have hhosts : ∀ {α : Type} {xs : List α} {f : α → Ident},
      Succeeds (m.context.hosts (xs.map f)) ↔ ∀ x ∈ xs, m.context.names.Resolves (f x) := by
    simp [Context.hosts_succeeds_iff]
  unfold initBody
  simp only [outcome_bind, outcome_lift, outcome_enter, succeeds_unit_bind, succeeds_ok, true_and,
    succeeds_forEach]
  refine and_congr Iff.rfl ?_
  refine (succeeds_bind fun constants _ => ?_).trans (and_congr_left' htexts)
  refine (succeeds_bind fun interfaces hinterfaces => ?_).trans (and_congr_left' htexts)
  have hfields := hhosts.mpr (htexts.mp ⟨interfaces, hinterfaces⟩)
  refine (succeeds_bind fun fields _ => ?_).trans (and_iff_right hfields)
  rw [outcome_line, succeeds_unit_bind, and_iff_right (succeeds_ok ())]
  refine (succeeds_bind fun labels _ => ?_).trans (and_congr_left' htexts)
  rw [outcome_line, succeeds_unit_bind, and_iff_right (succeeds_ok ())]
  refine (succeeds_bind fun units hunits => ?_).trans (and_congr_left' htexts)
  have hnames := htexts.mp ⟨units, hunits⟩
  refine (succeeds_bind fun unitFields _ => ?_).trans (and_iff_right (hhosts.mpr hnames))
  rw [outcome_line, succeeds_unit_bind, and_iff_right (succeeds_ok ()),
    succeeds_bind_of_forall, Script.succeeds_mapM]
  intro processes
  simpa [succeeds_forEach, Context.host_succeeds_iff] using hnames

/-- Processes are called by their numbers if their names have texts. -/
private theorem dispatch_succeeds_iff {m : Model} {ps : List ProcessDecl} {index : Nat} :
    Succeeds (m.dispatch index ps).outcome ↔ ∀ p ∈ ps, m.context.names.Resolves p.label := by
  induction ps generalizing index with
  | nil => simp [dispatch]
  | cons p ps ih =>
      rw [dispatch, List.forall_mem_cons]
      refine (succeeds_lift fun host _ => ?_).trans (and_congr_left' Context.host_succeeds_iff)
      simp [ih]

/-- The function for a process is written if its name has a text and its body is well-formed. -/
private theorem processFunction_succeeds_iff {m : Model} {p : ProcessDecl} :
    Succeeds (m.processFunction p).outcome ↔ m.context.names.Resolves p.label ∧
      ∀ st ∈ p.body, st.WellFormed m.context.names m.scope .process := by
  unfold processFunction
  refine (succeeds_lift fun label hlabel => ?_).trans (and_congr_left' Context.name_succeeds_iff)
  have hhost : Succeeds (m.context.host p.label) :=
    Context.host_succeeds_iff.mpr (Context.name_succeeds_iff.mp ⟨label, hlabel⟩)
  rw [outcome_bind, succeeds_unit_bind, outcome_doc, and_iff_right (succeeds_ok ())]
  refine (succeeds_lift fun host _ => ?_).trans (and_iff_right hhost)
  simp [Site.block_succeeds_iff]

/-- The functions for the processes are written if each can be. -/
private theorem processes_succeeds_iff {m : Model} :
    Succeeds m.processes.outcome ↔
      ∀ p ∈ m.body.processes, Succeeds (m.processFunction p).outcome := by
  unfold processes
  cases m.body.processes with
  | nil => simp
  | cons p ps => simp [succeeds_forEach]

/-- **Models.**  A model is written exactly if all its parts are well formed. -/
theorem script_succeeds_iff {m : Model} {settings : Settings} :
    Succeeds (m.script settings).outcome ↔
      (∀ t ∈ m.body.types, t.WellFormed m.context.names m.scope) ∧
      (∀ d ∈ m.decls, d.WellFormed m.context.names m.scope) ∧
      (∀ i ∈ m.body.instances, i.WellFormed m.context.names m.scope) ∧
      ∀ p ∈ m.body.processes, p.WellFormed m.context.names m.scope := by
  have hsimUnit : Succeeds m.simUnit.outcome ↔ Succeeds m.initBody.outcome ∧
      ∀ p ∈ m.body.processes, m.context.names.Resolves p.label := by
    unfold simUnit
    simp only [outcome_bind, outcome_enter, outcome_line, outcome_leave, outcome_blank,
      outcome_pure, succeeds_unit_bind, succeeds_ok, true_and]
    refine succeeds_bind fun summary _ => ?_
    simp [dispatch_succeeds_iff]
  have hscript : Succeeds (m.script settings).outcome ↔ Succeeds (m.imports settings).outcome ∧
      Succeeds m.structures.outcome ∧ Succeeds m.constructor.outcome ∧
      Succeeds m.simUnit.outcome ∧ Succeeds m.processes.outcome := by
    unfold script
    simp only [outcome_bind, succeeds_unit_bind]
    refine and_congr Iff.rfl (and_congr Iff.rfl (and_congr Iff.rfl ?_))
    refine succeeds_bind fun summary _ => ?_
    simp
  rw [hscript, hsimUnit, structures_succeeds_iff, constructor_succeeds_iff, initBody_succeeds_iff,
    processes_succeeds_iff]
  simp only [connections_succeeds_iff, registration_succeeds_iff, processFunction_succeeds_iff]
  constructor
  · rintro ⟨-, -, ⟨htypes, hdecls, hinstances⟩, ⟨⟨hconnections, -, -, -, -, hregistered⟩, -⟩,
      hprocesses⟩
    refine ⟨htypes, hdecls, fun i hi => ?_, fun p hp => ?_⟩
    · exact ⟨(hinstances i hi).1, (hinstances i hi).2, fun b hb => ((hconnections i hi).2 b hb).1,
        fun b hb => ((hconnections i hi).2 b hb).2⟩
    · obtain ⟨hlabel, hwatched, houtputs⟩ := hregistered p hp
      exact ⟨hlabel, hwatched, houtputs, (hprocesses p hp).2⟩
  · rintro ⟨htypes, hdecls, hinstances, hprocesses⟩
    have hnames : ∀ d ∈ m.decls, m.context.names.Resolves d.name := fun d hd =>
      (hdecls d hd).resolves
    have hconstants : ∀ d ∈ m.constants, m.context.names.Resolves d.name := fun d hd =>
      hnames d (List.mem_filter.mp hd).1
    have hsignals : ∀ d ∈ m.signals, m.context.names.Resolves d.name := fun d hd =>
      hnames d (List.mem_filter.mp hd).1
    have hunits : ∀ i ∈ m.body.instances,
        m.context.names.Resolves i.name ∧ m.context.names.Resolves i.moduleName :=
      fun i hi => ⟨(hinstances i hi).resolves, (hinstances i hi).module⟩
    have hlabels : ∀ p ∈ m.body.processes, m.context.names.Resolves p.label := fun p hp =>
      (hprocesses p hp).resolves
    refine ⟨imports_succeeds_of_forall fun i hi => (hunits i hi).2,
      ⟨hconstants, hunits, hsignals⟩, ⟨htypes, hdecls, hunits⟩,
      ⟨⟨?_, hconstants, hsignals, hlabels, fun i hi => (hunits i hi).1, ?_⟩, hlabels⟩, ?_⟩
    · intro i hi
      exact ⟨(hinstances i hi).resolves,
        fun b hb => ⟨(hinstances i hi).signals b hb, (hinstances i hi).ports b hb⟩⟩
    · intro p hp
      exact ⟨hlabels p hp, (hprocesses p hp).sensitivity, (hprocesses p hp).outputs⟩
    · intro p hp
      exact ⟨hlabels p hp, (hprocesses p hp).body⟩

private theorem refuseGenerics_succeeds_iff {c : Context} {params : List Generic} :
    Succeeds (refuseGenerics c params) ↔ params = [] := by
  cases params with
  | nil => simp [refuseGenerics]
  | cons generic params =>
      rw [refuseGenerics, succeeds_bind (p := False) fun _ _ => by simp]
      simp

end Model

/-! ### Modules -/

/-- A module body can be sorted exactly if no item is a function. -/
theorem Body.sort_succeeds_iff {c : Context} {items : List Item} :
    Succeeds (Body.sort c items).outcome ↔ ∀ item ∈ items, item.function? = none := by
  unfold Body.sort
  cases hfind : items.findSome? Item.function? with
  | none =>
      have hnone := List.findSome?_eq_none_iff.mp hfind
      exact ⟨fun _ => hnone, fun _ => ⟨Body.ofItems items, rfl⟩⟩
  | some function =>
      have hfunction : ¬ ∀ item ∈ items, item.function? = none := by
        rw [← List.findSome?_eq_none_iff, hfind]
        simp
      simp only [hfunction, iff_false]
      rw [Script.succeeds_lift (p := False) fun _ _ => by simp]
      simp

/-- Items that can be sorted are sorted in one way. -/
theorem Body.sort_ok {c : Context} {items : List Item} {body : Body}
    (h : (Body.sort c items).outcome = .ok body) : body = Body.ofItems items := by
  have hnone := List.findSome?_eq_none_iff.mpr (Body.sort_succeeds_iff.mp ⟨body, h⟩)
  unfold Body.sort at h
  rw [hnone] at h
  exact (Except.ok.inj h).symm

/-- The test for the type of types. -/
theorem Ty.isTypeOfTypes_iff {type : Ty} : type.isTypeOfTypes = true ↔ type = .typeOfTypes := by
  cases type <;> simp [Ty.isTypeOfTypes]

/-- An item is well formed if it is no function and what it declares is well formed. -/
theorem Item.wellFormed_iff {names : NameTable} {scope : Scope} {item : Item} :
    item.WellFormed names scope ↔ item.function? = none ∧
      (∀ t, item.typeItem? = some t → t.WellFormed names scope) ∧
      (∀ d, item.varDecl? = some d → d.WellFormed names scope) ∧
      (∀ i, item.subunit? = some i → i.WellFormed names scope) ∧
      ∀ p, item.process? = some p → p.WellFormed names scope := by
  constructor
  · intro h
    cases h with
    | synonym htype h =>
        simp [function?, typeItem?, varDecl?, subunit?, process?, Ty.isTypeOfTypes_iff, htype, h]
    | varDecl htype h =>
        simp [function?, typeItem?, varDecl?, subunit?, process?, Ty.isTypeOfTypes_iff, htype, h]
    | enumType h | arrayType h | process h | subunit h =>
        simp [function?, typeItem?, varDecl?, subunit?, process?, h]
  · rintro ⟨hfunction, htypes, hvars, hunits, hprocesses⟩
    cases item with
    | enumType d => exact .enumType (htypes _ rfl)
    | arrayType d => exact .arrayType (htypes _ rfl)
    | varDecl d =>
        by_cases htype : d.type = .typeOfTypes
        · refine .synonym htype (htypes _ ?_)
          simp [typeItem?, Ty.isTypeOfTypes_iff, htype]
        · refine .varDecl htype (hvars _ ?_)
          simp [varDecl?, Ty.isTypeOfTypes_iff, htype]
    | process p => exact .process (hprocesses _ rfl)
    | subunit i => exact .subunit (hunits _ rfl)
    | function f => cases hfunction

/-- **Items.**  The items are well formed exactly if none is a function and the parts of the sorted
body are well formed. -/
theorem items_wellFormed_iff {names : NameTable} {scope : Scope} {items : List Item} :
    (∀ item ∈ items, item.WellFormed names scope) ↔
      (∀ item ∈ items, item.function? = none) ∧
      (∀ t ∈ (Body.ofItems items).types, t.WellFormed names scope) ∧
      (∀ d ∈ (Body.ofItems items).vars, d.WellFormed names scope) ∧
      (∀ i ∈ (Body.ofItems items).instances, i.WellFormed names scope) ∧
      ∀ p ∈ (Body.ofItems items).processes, p.WellFormed names scope := by
  simp only [Item.wellFormed_iff, Body.ofItems, List.mem_filterMap]
  constructor
  · intro h
    refine ⟨fun item hitem => (h item hitem).1, ?_, ?_, ?_, ?_⟩
    · rintro t ⟨item, hitem, ht⟩
      exact (h item hitem).2.1 t ht
    · rintro d ⟨item, hitem, hd⟩
      exact (h item hitem).2.2.1 d hd
    · rintro i ⟨item, hitem, hi⟩
      exact (h item hitem).2.2.2.1 i hi
    · rintro p ⟨item, hitem, hp⟩
      exact (h item hitem).2.2.2.2 p hp
  · rintro ⟨hfunctions, htypes, hvars, hunits, hprocesses⟩ item hitem
    exact ⟨hfunctions item hitem, fun t ht => htypes t ⟨item, hitem, ht⟩,
      fun d hd => hvars d ⟨item, hitem, hd⟩, fun i hi => hunits i ⟨item, hitem, hi⟩,
      fun p hp => hprocesses p ⟨item, hitem, hp⟩⟩

/-- What is written of a module is written of the model with this body and this scope. -/
theorem Model.ofModule_ok {c : Context} {m : Module} {model : Model}
    (h : (Model.ofModule c m).outcome = .ok model) :
    model = ⟨c, m.doc, m.ports, Body.ofItems m.items, m.scope⟩ := by
  unfold Model.ofModule at h
  simp only [Script.outcome_bind, Script.outcome_lift, Script.outcome_pure] at h
  obtain ⟨_, -, h⟩ := Except.bind_eq_ok_iff.mp h
  obtain ⟨body, hbody, h⟩ := Except.bind_eq_ok_iff.mp h
  obtain ⟨scope, hscope, h⟩ := Except.bind_eq_ok_iff.mp h
  obtain rfl := Body.sort_ok hbody
  obtain rfl := Scope.build_ok hscope
  exact (Except.ok.inj h).symm

/-- A module has a model if it has no generics and no functions, and its scope can be built. -/
theorem Model.ofModule_succeeds_iff {c : Context} {m : Module} :
    Succeeds (Model.ofModule c m).outcome ↔ m.params = [] ∧
      (∀ item ∈ m.items, item.function? = none) ∧
      Succeeds (Scope.build c m.ports (Body.ofItems m.items)) := by
  unfold Model.ofModule
  refine (Script.succeeds_lift fun _ _ => ?_).trans (and_congr_left' refuseGenerics_succeeds_iff)
  refine (Script.succeeds_bind fun body hbody => ?_).trans
    (and_congr_left' Body.sort_succeeds_iff)
  obtain rfl := Body.sort_ok hbody
  rw [Script.outcome_bind, succeeds_bind_of_forall (by simp)]
  rfl

/-- The empty line between modules can always be written. -/
theorem Session.separator_succeeds (session : Session) : Succeeds session.separator.outcome := by
  unfold separator
  split <;> simp

/-- The preamble can always be written. -/
theorem Session.preambleScript_succeeds (session : Session) (settings : Settings) :
    Succeeds (session.preambleScript settings).outcome := by
  unfold preambleScript
  cases settings.sharedPreamble && !session.preambleShared <;>
    cases settings.modulePath.isNone <;> simp

/-- The script for a module in a session succeeds exactly if the module is well formed, apart from
its name. -/
theorem Session.moduleScript_succeeds_iff {session : Session} {settings : Settings} {c : Context}
    {m : Module} :
    Succeeds (session.moduleScript settings c m).outcome ↔ m.params = [] ∧
      (∀ p ∈ m.ports, p.WellFormed c.names m.scope) ∧
      (∀ item ∈ m.items, item.WellFormed c.names m.scope) ∧
      NoCollision c.names (Scope.fieldNames m.ports (Body.ofItems m.items)) ∧
      NoCollision c.names (Scope.functionNames (Body.ofItems m.items)) := by
  let model : Model := ⟨c, m.doc, m.ports, Body.ofItems m.items, m.scope⟩
  have hscript : Succeeds (session.moduleScript settings c m).outcome ↔
      Succeeds (Model.ofModule c m).outcome ∧ Succeeds (model.script settings).outcome := by
    refine Script.succeeds_bind fun model' hmodel => ?_
    obtain rfl : model' = model := Model.ofModule_ok hmodel
    simp [separator_succeeds, preambleScript_succeeds]
  rw [hscript, Model.ofModule_succeeds_iff, Model.script_succeeds_iff, Scope.build_succeeds_iff,
    items_wellFormed_iff]
  constructor
  · rintro ⟨⟨hgenerics, hfunction, ⟨-, hfields⟩, -, hfunctions⟩, htypes, hdecls, hunits,
      hprocesses⟩
    obtain ⟨hports, hvars⟩ := List.forall_mem_append.mp hdecls
    exact ⟨hgenerics, hports, ⟨hfunction, htypes, hvars, hunits, hprocesses⟩, hfields, hfunctions⟩
  · rintro ⟨hgenerics, hports, ⟨hfunction, htypes, hvars, hunits, hprocesses⟩, hfields, hfunctions⟩
    have hdecls : ∀ d ∈ m.ports ++ (Body.ofItems m.items).vars, d.WellFormed c.names m.scope :=
      List.forall_mem_append.mpr ⟨hports, hvars⟩
    -- The names that are looked up before anything is written are those of the parts.
    have hfieldNames : ∀ n ∈ Scope.fieldNames m.ports (Body.ofItems m.items),
        c.names.Resolves n := by
      refine List.forall_mem_append.mpr ⟨?_, ?_⟩
      · exact List.forall_mem_map.mpr fun d hd => (hdecls d hd).resolves
      · exact List.forall_mem_map.mpr fun i hi => (hunits i hi).resolves
    have hfunctionNames : ∀ n ∈ Scope.functionNames (Body.ofItems m.items),
        c.names.Resolves n := by
      refine List.forall_mem_append.mpr ⟨?_, ?_⟩
      · exact List.forall_mem_map.mpr fun t ht => (htypes t ht).resolves
      · exact List.forall_mem_map.mpr fun p hp => (hprocesses p hp).resolves
    exact ⟨⟨hgenerics, hfunction, ⟨hfieldNames, hfields⟩, hfunctionNames, hfunctions⟩,
      htypes, hdecls, hunits, hprocesses⟩

/-- **Acceptance.**  A model is made of a module, in a sink that refuses nothing, exactly if the
module is well formed. -/
theorem lowerModule_succeeds_iff (names : NameTable) (settings : Settings) (m : Module) :
    (∃ summary, (lowerModule names settings m).result = .ok summary) ↔ m.WellFormed names := by
  unfold lowerModule
  cases hname : names.resolve? m.name with
  | none =>
      unfold Session.emit
      constructor
      · rintro ⟨summary, h⟩
        simp [hname] at h
      · intro h
        obtain ⟨text, htext⟩ := h.resolves
        simp [hname] at htext
  | some name =>
      rw [(Session.emit_eq_run hname settings (Session.start none)).1, Session.run_unlimited rfl]
      refine Session.moduleScript_succeeds_iff.trans ?_
      constructor
      · rintro ⟨hgenerics, hports, hitems, hfields, hfunctions⟩
        exact ⟨⟨name, hname⟩, hgenerics, hports, hitems, hfields, hfunctions⟩
      · rintro ⟨-, hgenerics, hports, hitems, hfields, hfunctions⟩
        exact ⟨hgenerics, hports, hitems, hfields, hfunctions⟩

end HdlSim
