import HdlSim.Proofs.Locals

/-!
# Bindings in the constructor

In the constructor, signals and constants are variables, and a name means what the statements above
make of it.  The statements are those of the ports, then of the variables, in the order of the
source, whatever their values refer to.

Main statements: an identifier for a signal or a constant is bound above its use if and only if the
declaration is in front of the one that refers to it (`emit_binds_iff_declared_above`); and an
identifier for anything else is taken for a variable if and only if a declaration in front has the
same host identifier (`emit_shadows_iff_namesake_above`).  Neither condition is checked.
-/

namespace HdlSim

open HostLet

/-- What is mentioned is a signal or a constant of the module. -/
def Mention.isOwn : Mention → Bool
  | .own _ => true
  | .outer _ | .runtime _ => false

/-! ### Before and after -/

/-- Every identifier for a signal or a constant is bound above the statement that it is in.  The
first statement is not one of a declaration. -/
def HostLet.BoundBeforeUse (names : NameTable) (m : Module) (lets : List HostLet) : Prop :=
  ∀ (j : Nat) (d : Variable) (n : Ident), m.declarations[j]? = some d →
    .own n ∈ d.mentions m.scope → BoundAbove lets (j + 1) (names.hostOf n)

/-- Every declaration refers to those in front of it only. -/
def Module.DeclaredBeforeUse (m : Module) : Prop :=
  ∀ (j : Nat) (d : Variable) (n : Ident), m.declarations[j]? = some d →
    .own n ∈ d.mentions m.scope → n ∈ (m.declarations.take j).map Variable.name

/-- No identifier for anything else is bound above the statement that it is in. -/
def HostLet.Unshadowed (names : NameTable) (m : Module) (lets : List HostLet) : Prop :=
  ∀ (j : Nat) (d : Variable) (mention : Mention), m.declarations[j]? = some d →
    mention ∈ d.mentions m.scope → mention.isOwn = false →
    ¬ BoundAbove lets (j + 1) (names.identifier mention)

/-- No declaration has the host identifier of something else that a later one mentions. -/
def Module.KeepsClear (names : NameTable) (m : Module) : Prop :=
  ∀ (j : Nat) (d : Variable) (mention : Mention), m.declarations[j]? = some d →
    mention ∈ d.mentions m.scope → mention.isOwn = false →
    ∀ namesake ∈ m.declarations.take j, names.hostOf namesake.name ≠ names.identifier mention

/-- What a declaration mentions as its own is owned. -/
theorem Variable.owns_of_mem {scope : Scope} {d : Variable} {n : Ident}
    (h : .own n ∈ d.mentions scope) : scope.Owns n := by
  have hvalue : .own n ∈ d.value.elim [] (Expr.mentions scope) → scope.Owns n := by
    intro hmem
    cases hcase : d.value with
    | none => simp [hcase] at hmem
    | some e =>
        rw [hcase] at hmem
        exact e.owns_of_mem hmem
  unfold Variable.mentions at h
  by_cases hconst : d.isConst = true
  · rw [if_pos hconst] at h
    exact hvalue h
  · rw [if_neg hconst] at h
    rcases List.mem_append.mp h with htype | hmem
    · exact Ty.owns_of_mem htype
    · exact hvalue hmem

/-- The signals and constants in scope are declared. -/
theorem Module.mem_declarations_of_owns {m : Module} {n : Ident} (h : m.scope.Owns n) :
    n ∈ m.declarations.map Variable.name := by
  rw [Module.declarations, m.variables_eq]
  rcases h with hproxy | hconstant
  · obtain ⟨d, hd, rfl⟩ := Scope.exists_proxy hproxy
    exact List.mem_map_of_mem (List.mem_filter.mp hd).1
  · obtain ⟨d, hd, rfl⟩ := Scope.exists_constant hconstant
    exact List.mem_map_of_mem (List.mem_filter.mp hd).1

/-- No mention is the simulator's part of the model. -/
private theorem NameTable.identifier_ne_model (names : NameTable) (mention : Mention) :
    names.identifier mention ≠ .plain "model" := by
  cases mention with
  | own n => exact names.hostOf_ne_plain n (by decide)
  | outer n => exact names.hostOf_ne_plain n (by decide)
  | runtime maker =>
      have hmakers : HostName.plain maker.text ≠ .plain "model" := by cases maker <;> decide
      exact hmakers

/-- The declarations of a module that is written have different host identifiers. -/
theorem Session.emit_hostOf_inj {names : NameTable} {settings : Settings} {session : Session}
    {m : Module} {summary : Summary} (h : (session.emit names settings m).result = .ok summary)
    {n n' : Ident} (hn : n ∈ m.declarations.map Variable.name)
    (hn' : n' ∈ m.declarations.map Variable.name) (heq : names.hostOf n = names.hostOf n') :
    n = n' := by
  obtain ⟨name, -, hmodel, -, -⟩ := Session.emit_code h
  obtain ⟨-, -, hscope⟩ := Model.ofModule_succeeds_iff.mp ⟨_, hmodel⟩
  obtain ⟨⟨hknown, hapart⟩, -⟩ := Scope.build_succeeds_iff.mp hscope
  have hfields : ∀ k ∈ m.declarations.map Variable.name,
      k ∈ Scope.fieldNames m.ports (Body.ofItems m.items) := by
    intro k hk
    rw [Module.declarations, m.variables_eq] at hk
    exact List.mem_append_left _ hk
  exact hapart.hostOf_inj hknown (hfields n hn) (hfields n' hn') heq

/-- A declaration stands at a place among the declarations. -/
theorem Module.le_length_of_getElem? {m : Module} {j : Nat} {d : Variable}
    (h : m.declarations[j]? = some d) : j ≤ m.declarations.length := by
  obtain ⟨hlt, -⟩ := List.getElem?_eq_some_iff.mp h
  omega

section

variable {names : NameTable} {m : Module} {lets : List HostLet}
  (hentries : lets.map HostLet.entry = m.locals names)

include hentries

private theorem HostLet.mem_map_name_of_owns {n : Ident} (h : m.scope.Owns n) :
    names.hostOf n ∈ lets.map HostLet.name := by
  obtain ⟨d, hd, rfl⟩ := List.mem_map.mp (Module.mem_declarations_of_owns h)
  rw [map_name_eq hentries]
  apply List.mem_cons_of_mem
  apply List.mem_append_left
  exact List.mem_map.mpr ⟨d, hd, rfl⟩

/-- Different declarations have different variables, so what is bound above tells what is declared
above. -/
theorem HostLet.boundAbove_own_iff {settings : Settings} {session : Session} {summary : Summary}
    (h : (session.emit names settings m).result = .ok summary) {j : Nat} {d : Variable} {n : Ident}
    (hj : m.declarations[j]? = some d) (hn : m.scope.Owns n) :
    BoundAbove lets (j + 1) (names.hostOf n) ↔
      n ∈ (m.declarations.take j).map Variable.name := by
  have hdeclared := Module.mem_declarations_of_owns hn
  rw [boundAbove_iff hentries (Module.le_length_of_getElem? hj)
    (names.hostOf_ne_plain n (by decide)), List.mem_map]
  constructor
  · rintro ⟨d', hd', heq⟩
    have hfront : d'.name ∈ m.declarations.map Variable.name :=
      List.mem_map_of_mem (List.mem_of_mem_take hd')
    exact ⟨d', hd', Session.emit_hostOf_inj h hfront hdeclared heq⟩
  · rintro ⟨d', hd', rfl⟩
    exact ⟨d', hd', rfl⟩

/-- A mention is bound above a declaration if and only if a declaration of the same identifier
stands in front of it. -/
theorem HostLet.boundAbove_identifier_iff {j : Nat} {d : Variable}
    (hj : m.declarations[j]? = some d) (mention : Mention) :
    BoundAbove lets (j + 1) (names.identifier mention) ↔
      ∃ namesake ∈ m.declarations.take j,
        names.hostOf namesake.name = names.identifier mention :=
  boundAbove_iff hentries (Module.le_length_of_getElem? hj) (names.identifier_ne_model mention)

/-- The statements for instances are last and hold no identifiers. -/
theorem HostLet.identifiers_of_mem_drop {l : HostLet}
    (hl : l ∈ lets.drop (m.declarations.length + 1)) : l.identifiers = [] := by
  have hentry : l.entry ∈ (m.locals names).drop (m.declarations.length + 1) := by
    rw [← hentries, ← List.map_drop]
    exact List.mem_map_of_mem hl
  have hunits : (m.locals names).drop (m.declarations.length + 1) =
      m.instances.map fun i => (names.hostOf i.name, []) := by
    rw [Module.locals, List.drop_succ_cons, List.drop_left' (by simp)]
  rw [hunits] at hentry
  obtain ⟨i, -, hi⟩ := List.mem_map.mp hentry
  exact (congrArg Prod.snd hi).symm

end

/-- **Bound if and only if declared above.**  In the text that is added behind the imports, every
identifier for a signal or a constant is one of the variables of the constructor.  It is bound above
its use if and only if it is declared in front of the declaration that refers to it. -/
theorem emit_binds_iff_declared_above (names : NameTable) (settings : Settings)
    (session : Session) (m : Module) {summary : Summary}
    (h : (session.emit names settings m).result = .ok summary) :
    ∃ code lets, (session.emit names settings m).session.text =
        session.text ++ session.head settings (m.submodules names) ++ code ∧
      HostLet.ofCode code = some lets ∧ lets.map HostLet.entry = m.locals names ∧
      (∀ (j : Nat) (d : Variable) (n : Ident), m.declarations[j]? = some d →
        .own n ∈ d.mentions m.scope →
        names.hostOf n ∈ lets.map HostLet.name ∧
          (BoundAbove lets (j + 1) (names.hostOf n) ↔
            n ∈ (m.declarations.take j).map Variable.name)) ∧
      (BoundBeforeUse names m lets ↔ m.DeclaredBeforeUse) := by
  obtain ⟨code, lets, htext, hread, hentries⟩ := Session.emit_locals h
  refine ⟨code, lets, htext, hread, hentries, ?_, ?_⟩
  · intro j d n hj hmem
    have howns := Variable.owns_of_mem hmem
    exact ⟨mem_map_name_of_owns hentries howns, boundAbove_own_iff hentries h hj howns⟩
  · constructor
    · intro hbound j d n hj hmem
      exact (boundAbove_own_iff hentries h hj (Variable.owns_of_mem hmem)).mp
        (hbound j d n hj hmem)
    · intro hdeclared j d n hj hmem
      exact (boundAbove_own_iff hentries h hj (Variable.owns_of_mem hmem)).mpr
        (hdeclared j d n hj hmem)

/-- An array is as large as a constant that is declared in front of it, and its initial value reads
a port and a constant that is declared behind it. -/
theorem emit_binds_iff_declared_above_later_constant :
    let names : NameTable := ⟨["top", "a", "N", "mem", "K"]⟩
    let settings : Settings := .withModulePath "crate::models"
    let session : Session := .start none
    let m : Module :=
      { Module.empty ⟨0⟩ with
        ports := [.port ⟨1⟩ .input (.bits 8 false)]
        items :=
          [.varDecl (.constant ⟨2⟩ (.bits 8 false) (.literal (.int 4))),
            .varDecl ((Variable.signal ⟨3⟩ (.array (.bits 8 false) (.name ⟨2⟩))).withValue
              (.binary .add (.name ⟨1⟩) (.name ⟨4⟩))),
            .varDecl (.constant ⟨4⟩ (.bits 8 false) (.literal (.int 1)))] }
    let summary : Summary := ⟨"top", ["a", "mem"], ["N", "K"], [], []⟩
    (session.emit names settings m).result = .ok summary ∧
      ∃ code lets, (session.emit names settings m).session.text =
          session.text ++ session.head settings (m.submodules names) ++ code ∧
        HostLet.ofCode code = some lets ∧ lets.map HostLet.entry = m.locals names ∧
        (∀ (j : Nat) (d : Variable) (n : Ident), m.declarations[j]? = some d →
          .own n ∈ d.mentions m.scope →
          names.hostOf n ∈ lets.map HostLet.name ∧
            (BoundAbove lets (j + 1) (names.hostOf n) ↔
              n ∈ (m.declarations.take j).map Variable.name)) ∧
        (BoundBeforeUse names m lets ↔ m.DeclaredBeforeUse) := by
  intro names settings session m summary
  have houtcome : (session.moduleScript settings ⟨names, "top"⟩ m).outcome = .ok summary := rfl
  have hname : names.resolve? m.name = some "top" := rfl
  have hlimit : session.writer.sink.limit = none := rfl
  have hresult : (session.emit names settings m).result = .ok summary := by
    rw [Session.emit_unlimited hname hlimit settings, houtcome]
  exact ⟨hresult, emit_binds_iff_declared_above names settings session m hresult⟩

/-- The initial value of a port is a constant of the module, whose statement comes later. -/
theorem emit_port_reads_unbound_constant :
    let names : NameTable := ⟨["top", "q", "K"]⟩
    let settings : Settings := .withModulePath "crate::models"
    let session : Session := .start none
    let m : Module :=
      { Module.empty ⟨0⟩ with
        ports := [(Variable.port ⟨1⟩ .output (.bits 8 false)).withValue (.name ⟨2⟩)]
        items := [.varDecl (.constant ⟨2⟩ (.bits 8 false) (.literal (.int 5)))] }
    (session.emit names settings m).result = .ok ⟨"top", ["q"], ["K"], [], []⟩ ∧
      ∃ code lets, (session.emit names settings m).session.text =
          session.text ++ session.head settings (m.submodules names) ++ code ∧
        HostLet.ofCode code = some lets ∧ lets.map HostLet.entry = m.locals names ∧
        ¬ BoundBeforeUse names m lets := by
  intro names settings session m
  have houtcome : (session.moduleScript settings ⟨names, "top"⟩ m).outcome =
      .ok ⟨"top", ["q"], ["K"], [], []⟩ := rfl
  have hname : names.resolve? m.name = some "top" := rfl
  have hlimit : session.writer.sink.limit = none := rfl
  have hresult : (session.emit names settings m).result =
      .ok ⟨"top", ["q"], ["K"], [], []⟩ := by
    rw [Session.emit_unlimited hname hlimit settings, houtcome]
  obtain ⟨code, lets, htext, hread, hentries⟩ := Session.emit_locals hresult
  refine ⟨hresult, code, lets, htext, hread, hentries, ?_⟩
  intro hbound
  have hmention : .own ⟨2⟩ ∈ Variable.mentions m.scope
      ((Variable.port ⟨1⟩ .output (.bits 8 false)).withValue (.name ⟨2⟩)) := by decide
  have habove := hbound 0 _ ⟨2⟩ rfl hmention
  obtain ⟨d, hd, -⟩ := (boundAbove_iff hentries (Nat.zero_le _)
    (names.hostOf_ne_plain ⟨2⟩ (by decide))).mp habove
  simp at hd

/-- **Shadowed if and only if a namesake is above.**  In the text that is added behind the imports,
an identifier for something else than a signal or a constant is taken for a variable of the
constructor if and only if an earlier declaration has the same host identifier.  The statements for
instances are last and hold no identifiers. -/
theorem emit_shadows_iff_namesake_above (names : NameTable) (settings : Settings)
    (session : Session) (m : Module) {summary : Summary}
    (h : (session.emit names settings m).result = .ok summary) :
    ∃ code lets, (session.emit names settings m).session.text =
        session.text ++ session.head settings (m.submodules names) ++ code ∧
      HostLet.ofCode code = some lets ∧ lets.map HostLet.entry = m.locals names ∧
      (∀ l ∈ lets.drop (m.declarations.length + 1), l.identifiers = []) ∧
      (∀ (j : Nat) (d : Variable) (mention : Mention), m.declarations[j]? = some d →
        mention ∈ d.mentions m.scope → mention.isOwn = false →
        (BoundAbove lets (j + 1) (names.identifier mention) ↔
          ∃ namesake ∈ m.declarations.take j,
            names.hostOf namesake.name = names.identifier mention)) ∧
      (Unshadowed names m lets ↔ m.KeepsClear names) := by
  obtain ⟨code, lets, htext, hread, hentries⟩ := Session.emit_locals h
  refine ⟨code, lets, htext, hread, hentries, fun l hl => identifiers_of_mem_drop hentries hl,
    fun j d mention hj _ _ => boundAbove_identifier_iff hentries hj mention, ?_⟩
  constructor
  · intro hclear j d mention hj hmem hother namesake hnamesake heq
    apply hclear j d mention hj hmem hother
    exact (boundAbove_identifier_iff hentries hj mention).mpr ⟨namesake, hnamesake, heq⟩
  · intro hclear j d mention hj hmem hother hbound
    obtain ⟨namesake, hnamesake, heq⟩ := (boundAbove_identifier_iff hentries hj mention).mp hbound
    exact hclear j d mention hj hmem hother namesake hnamesake heq

/-- The size of an array is asked of a function of the runtime, and a later constant has the name of
another one. -/
theorem emit_shadows_iff_namesake_above_runtime_call :
    let names : NameTable := ⟨["top", "a", "clog2", "mem", "bits", "sub", "u"]⟩
    let settings : Settings := .withModulePath "crate::models"
    let session : Session := .start none
    let m : Module :=
      { Module.empty ⟨0⟩ with
        ports := [.port ⟨1⟩ .input (.bits 8 false)]
        items :=
          [.varDecl (.signal ⟨3⟩ (.array (.bits 8 false) (.call ⟨2⟩ [.literal (.int 9)]))),
            .varDecl (.constant ⟨4⟩ (.bits 8 false) (.name ⟨1⟩)),
            .subunit (.ofBindings ⟨6⟩ ⟨5⟩ [])] }
    let summary : Summary := ⟨"top", ["a", "mem"], ["bits"], [], ["u"]⟩
    (session.emit names settings m).result = .ok summary ∧
      ∃ code lets, (session.emit names settings m).session.text =
          session.text ++ session.head settings (m.submodules names) ++ code ∧
        HostLet.ofCode code = some lets ∧ lets.map HostLet.entry = m.locals names ∧
        (∀ l ∈ lets.drop (m.declarations.length + 1), l.identifiers = []) ∧
        (∀ (j : Nat) (d : Variable) (mention : Mention), m.declarations[j]? = some d →
          mention ∈ d.mentions m.scope → mention.isOwn = false →
          (BoundAbove lets (j + 1) (names.identifier mention) ↔
            ∃ namesake ∈ m.declarations.take j,
              names.hostOf namesake.name = names.identifier mention)) ∧
        (Unshadowed names m lets ↔ m.KeepsClear names) := by
  intro names settings session m summary
  have houtcome : (session.moduleScript settings ⟨names, "top"⟩ m).outcome = .ok summary := rfl
  have hname : names.resolve? m.name = some "top" := rfl
  have hlimit : session.writer.sink.limit = none := rfl
  have hresult : (session.emit names settings m).result = .ok summary := by
    rw [Session.emit_unlimited hname hlimit settings, houtcome]
  exact ⟨hresult, emit_shadows_iff_namesake_above names settings session m hresult⟩

/-- A port has the name of the function that makes the value of the constant behind it. -/
theorem emit_port_shadows_maker :
    let names : NameTable := ⟨["top", "int", "K"]⟩
    let settings : Settings := .withModulePath "crate::models"
    let session : Session := .start none
    let m : Module :=
      { Module.empty ⟨0⟩ with
        ports := [.port ⟨1⟩ .input (.bits 8 false)]
        items := [.varDecl (.constant ⟨2⟩ (.bits 8 false) (.literal (.int 5)))] }
    (session.emit names settings m).result = .ok ⟨"top", ["int"], ["K"], [], []⟩ ∧
      ∃ code lets, (session.emit names settings m).session.text =
          session.text ++ session.head settings (m.submodules names) ++ code ∧
        HostLet.ofCode code = some lets ∧ lets.map HostLet.entry = m.locals names ∧
        ¬ Unshadowed names m lets := by
  intro names settings session m
  have houtcome : (session.moduleScript settings ⟨names, "top"⟩ m).outcome =
      .ok ⟨"top", ["int"], ["K"], [], []⟩ := rfl
  have hname : names.resolve? m.name = some "top" := rfl
  have hlimit : session.writer.sink.limit = none := rfl
  have hresult : (session.emit names settings m).result =
      .ok ⟨"top", ["int"], ["K"], [], []⟩ := by
    rw [Session.emit_unlimited hname hlimit settings, houtcome]
  obtain ⟨code, lets, htext, hread, hentries⟩ := Session.emit_locals hresult
  refine ⟨hresult, code, lets, htext, hread, hentries, ?_⟩
  intro hclear
  have hmention : .runtime .int ∈ Variable.mentions m.scope
      (.constant ⟨2⟩ (.bits 8 false) (.literal (.int 5))) := by decide
  have hdecl : m.declarations[1]? =
      some (.constant ⟨2⟩ (.bits 8 false) (.literal (.int 5))) := by
    rw [Module.declarations, m.variables_eq]
    rfl
  apply hclear 1 _ (.runtime .int) hdecl hmention rfl
  have hnamesake : names.hostOf ⟨1⟩ = names.identifier (.runtime .int) := by decide
  exact (boundAbove_identifier_iff hentries hdecl _).mpr
    ⟨.port ⟨1⟩ .input (.bits 8 false), List.mem_singleton.mpr rfl, hnamesake⟩

end HdlSim
