import HdlSim.Proofs.Escaping
import HdlSim.Proofs.ModuleAcceptance

/-!
# What names denote

Whether a module has a scope depends on which names it declares, and neither on their order nor on
how often they are declared (`Scope.Buildable`).  What a name denotes in the scope depends on the
order: the first declaration of the name counts, where types come before ports and ports before
variables, and an enumeration declares its members right behind itself (`Denotes`).

Main statement: names are taken and found accordingly (`build_exact`).
-/

namespace HdlSim

namespace Scope

/-! ### Modules that have a scope -/

/-- The names that become fields. -/
inductive IsField (ports : List Variable) (body : Body) : Ident → Prop
  | port {p : Variable} (hp : p ∈ ports) : IsField ports body p.name
  | var {v : Variable} (hv : v ∈ body.vars) : IsField ports body v.name
  | subunit {i : Instance} (hi : i ∈ body.instances) : IsField ports body i.name

/-- The names that become functions. -/
inductive IsFunction (body : Body) : Ident → Prop
  | type {t : TypeItem} (ht : t ∈ body.types) : IsFunction body t.name
  | process {p : ProcessDecl} (hp : p ∈ body.processes) : IsFunction body p.label

/-- Two different names have the same host identifier. -/
def Collide (names : NameTable) (n m : Ident) : Prop :=
  n ≠ m ∧ ∃ text text', names.resolve? n = some text ∧ names.resolve? m = some text' ∧
    (HostName.escape text).text = (HostName.escape text').text

/-- **A module that has a scope.**  All names are known, and no two of one kind collide. -/
structure Buildable (names : NameTable) (ports : List Variable) (body : Body) : Prop where
  fieldsKnown : ∀ n, IsField ports body n → names.Resolves n
  functionsKnown : ∀ n, IsFunction body n → names.Resolves n
  fieldsApart : ∀ n m, IsField ports body n → IsField ports body m → ¬ Collide names n m
  functionsApart : ∀ n m, IsFunction body n → IsFunction body m → ¬ Collide names n m

/-- The names of fields. -/
theorem mem_fieldNames_iff {ports : List Variable} {body : Body} {n : Ident} :
    n ∈ fieldNames ports body ↔ IsField ports body n := by
  unfold fieldNames
  constructor
  · intro hn
    rcases List.mem_append.mp hn with hn | hn
    · obtain ⟨v, hv, rfl⟩ := List.mem_map.mp hn
      rcases List.mem_append.mp hv with hv | hv
      · exact .port hv
      · exact .var hv
    · obtain ⟨i, hi, rfl⟩ := List.mem_map.mp hn
      exact .subunit hi
  · intro hn
    cases hn with
    | port hp => exact List.mem_append_left _ (List.mem_map_of_mem (List.mem_append_left _ hp))
    | var hv => exact List.mem_append_left _ (List.mem_map_of_mem (List.mem_append_right _ hv))
    | subunit hi => exact List.mem_append_right _ (List.mem_map_of_mem hi)

/-- The names of functions. -/
theorem mem_functionNames_iff {body : Body} {n : Ident} :
    n ∈ functionNames body ↔ IsFunction body n := by
  unfold functionNames
  constructor
  · intro hn
    rcases List.mem_append.mp hn with hn | hn
    · obtain ⟨t, ht, rfl⟩ := List.mem_map.mp hn
      exact .type ht
    · obtain ⟨p, hp, rfl⟩ := List.mem_map.mp hn
      exact .process hp
  · intro hn
    cases hn with
    | type ht => exact List.mem_append_left _ (List.mem_map_of_mem ht)
    | process hp => exact List.mem_append_right _ (List.mem_map_of_mem hp)

private theorem not_collide_iff {names : NameTable} {n m : Ident} :
    ¬ Collide names n m ↔ Apart names n m := by
  constructor
  · intro h text text' htext htext' heq
    by_cases hsame : n = m
    · exact hsame
    · exact absurd ⟨hsame, text, text', htext, htext', congrArg HostName.text heq⟩ h
  · rintro h ⟨hne, text, text', htext, htext', heq⟩
    exact hne (h text text' htext htext' (HostName.escape_text_inj heq))

/-- Scopes are built exactly of what has one. -/
theorem build_succeeds_iff_buildable {c : Context} {ports : List Variable} {body : Body} :
    Succeeds (build c ports body) ↔ Buildable c.names ports body := by
  simp only [build_succeeds_iff, NoCollision, mem_fieldNames_iff, mem_functionNames_iff,
    ← not_collide_iff]
  constructor
  · rintro ⟨⟨hfields, hapart⟩, hfunctions, hapart'⟩
    exact ⟨hfields, hfunctions, fun n m hn hm => hapart n hn m hm,
      fun n m hn hm => hapart' n hn m hm⟩
  · intro h
    exact ⟨⟨h.fieldsKnown, fun n hn m hm => h.fieldsApart n m hn hm⟩,
      h.functionsKnown, fun n hn m hm => h.functionsApart n m hn hm⟩

/-- The same declarations in another order.  Ports and variables may change places. -/
structure Permuted (ports : List Variable) (body : Body) (ports' : List Variable) (body' : Body) :
    Prop where
  vars : (ports ++ body.vars).Perm (ports' ++ body'.vars)
  types : body.types.Perm body'.types
  processes : body.processes.Perm body'.processes
  instances : body.instances.Perm body'.instances

namespace Permuted

variable {names : NameTable} {ports ports' : List Variable} {body body' : Body}

/-- A permutation can be undone. -/
theorem symm (h : Permuted ports body ports' body') : Permuted ports' body' ports body :=
  ⟨h.vars.symm, h.types.symm, h.processes.symm, h.instances.symm⟩

/-- A permutation keeps fields. -/
theorem isField {n : Ident} (h : Permuted ports body ports' body')
    (hn : IsField ports body n) :
    IsField ports' body' n := by
  have hnames : (fieldNames ports body).Perm (fieldNames ports' body') :=
    (h.vars.map _).append (h.instances.map _)
  exact mem_fieldNames_iff.mp (hnames.subset (mem_fieldNames_iff.mpr hn))

/-- A permutation keeps functions. -/
theorem isFunction {n : Ident} (h : Permuted ports body ports' body')
    (hn : IsFunction body n) :
    IsFunction body' n := by
  have hnames : (functionNames body).Perm (functionNames body') :=
    (h.types.map _).append (h.processes.map _)
  exact mem_functionNames_iff.mp (hnames.subset (mem_functionNames_iff.mpr hn))

/-- A permutation keeps whether a scope can be built. -/
theorem buildable (h : Permuted ports body ports' body')
    (hbuild : Buildable names ports body) :
    Buildable names ports' body' where
  fieldsKnown n hn := hbuild.fieldsKnown n (h.symm.isField hn)
  functionsKnown n hn := hbuild.functionsKnown n (h.symm.isFunction hn)
  fieldsApart n m hn hm := hbuild.fieldsApart n m (h.symm.isField hn) (h.symm.isField hm)
  functionsApart n m hn hm :=
    hbuild.functionsApart n m (h.symm.isFunction hn) (h.symm.isFunction hm)

end Permuted

end Scope

/-! ### The first declaration -/

/-- **What a name denotes**, given the types and then the ports and variables of a module, each in
order.  The first declaration counts; a type is declared in front of its members. -/
inductive Denotes (n : Ident) : List TypeItem → List Variable → NameKind → Prop
  | type {t : TypeItem} {ts : List TypeItem} {vs : List Variable} (hname : t.name = n) :
      Denotes n (t :: ts) vs .type
  | member {t : TypeItem} {ts : List TypeItem} {vs : List Variable} {m : EnumMember}
      (hname : t.name ≠ n) (hm : m ∈ t.members) (hmember : m.name = n) :
      Denotes n (t :: ts) vs (.enumMember t.name)
  | laterType {t : TypeItem} {ts : List TypeItem} {vs : List Variable} {kind : NameKind}
      (hname : t.name ≠ n) (hmembers : ∀ m ∈ t.members, m.name ≠ n) (h : Denotes n ts vs kind) :
      Denotes n (t :: ts) vs kind
  | constant {v : Variable} {vs : List Variable} (hname : v.name = n) (hconst : v.isConst = true) :
      Denotes n [] (v :: vs) .constant
  | signal {v : Variable} {vs : List Variable} (hname : v.name = n) (hconst : v.isConst = false) :
      Denotes n [] (v :: vs) .proxy
  | laterVariable {v : Variable} {vs : List Variable} {kind : NameKind} (hname : v.name ≠ n)
      (h : Denotes n [] vs kind) : Denotes n [] (v :: vs) kind

namespace Scope

variable {n : Ident}

/-- An entry for another name is passed over. -/
theorem lookup_cons_ne {m : Ident} {kind : NameKind} (h : m ≠ n)
    (rest : List (Ident × NameKind)) :
    ((m, kind) :: rest).lookup n = rest.lookup n := by
  have hbeq : (n == m) = false := beq_false_of_ne (Ne.symm h)
  rw [List.lookup_cons, hbeq]

/-- A member of an enumeration is found among its members. -/
private theorem lookup_members {members : List EnumMember} {m : EnumMember} (hm : m ∈ members)
    (hmember : m.name = n) (kind : NameKind) (rest : List (Ident × NameKind)) :
    (members.map (fun m => (m.name, kind)) ++ rest).lookup n = some kind := by
  induction members with
  | nil => cases hm
  | cons first members ih =>
      rw [List.map_cons, List.cons_append]
      by_cases hfirst : first.name = n
      · rw [hfirst, List.lookup_cons_self]
      · rw [lookup_cons_ne hfirst]
        rcases List.mem_cons.mp hm with rfl | hm
        · exact absurd hmember hfirst
        · exact ih hm

private theorem lookup_no_member {members : List EnumMember} (h : ∀ m ∈ members, m.name ≠ n)
    (kind : NameKind) (rest : List (Ident × NameKind)) :
    (members.map (fun m => (m.name, kind)) ++ rest).lookup n = rest.lookup n := by
  induction members with
  | nil => rfl
  | cons first members ih =>
      obtain ⟨hfirst, hmembers⟩ := List.forall_mem_cons.mp h
      rw [List.map_cons, List.cons_append, lookup_cons_ne hfirst, ih hmembers]

/-- Among variables the first of its name is found. -/
private theorem lookup_variables_iff {vs : List Variable} {kind : NameKind} :
    (vs.map variableEntry).lookup n = some kind ↔ Denotes n [] vs kind := by
  induction vs with
  | nil =>
      constructor
      · intro h
        cases h
      · intro h
        cases h
  | cons v vs ih =>
      rw [List.map_cons, variableEntry]
      by_cases hname : v.name = n
      · rw [hname, List.lookup_cons_self, Option.some.injEq]
        constructor
        · rintro rfl
          cases hconst : v.isConst with
          | true => exact .constant hname hconst
          | false => exact .signal hname hconst
        · intro h
          cases h with
          | constant _ hconst => rw [hconst]; rfl
          | signal _ hconst => rw [hconst]; rfl
          | laterVariable hlater => exact absurd hname hlater
      · rw [lookup_cons_ne hname, ih]
        constructor
        · exact .laterVariable hname
        · intro h
          cases h with
          | constant hfirst => exact absurd hfirst hname
          | signal hfirst => exact absurd hfirst hname
          | laterVariable _ hlater => exact hlater

/-- **Names are found where they are declared first.** -/
theorem lookup_entries_iff {ts : List TypeItem} {vs : List Variable} {kind : NameKind} :
    (ts.flatMap typeEntries ++ vs.map variableEntry).lookup n = some kind ↔
      Denotes n ts vs kind := by
  induction ts with
  | nil => exact lookup_variables_iff
  | cons t ts ih =>
      rw [List.flatMap_cons, typeEntries, List.append_assoc, List.cons_append]
      by_cases hname : t.name = n
      · rw [hname, List.lookup_cons_self, Option.some.injEq]
        constructor
        · rintro rfl
          exact .type hname
        · intro h
          cases h with
          | type => rfl
          | member hother => exact absurd hname hother
          | laterType hother => exact absurd hname hother
      rw [lookup_cons_ne hname]
      by_cases hmember : ∃ m ∈ t.members, m.name = n
      · obtain ⟨m, hm, hmname⟩ := hmember
        rw [lookup_members hm hmname, Option.some.injEq]
        constructor
        · rintro rfl
          exact .member hname hm hmname
        · intro h
          cases h with
          | type hother => exact absurd hother hname
          | member => rfl
          | laterType _ hother => exact absurd hmname (hother m hm)
      · have hmembers : ∀ m ∈ t.members, m.name ≠ n := fun m hm heq => hmember ⟨m, hm, heq⟩
        rw [lookup_no_member hmembers, ih]
        constructor
        · exact .laterType hname hmembers
        · intro h
          cases h with
          | type hother => exact absurd hother hname
          | member _ hm hother => exact absurd hother (hmembers _ hm)
          | laterType _ _ hlater => exact hlater

/-- What a name denotes is its first declaration. -/
private theorem get?_ofBody_iff {ports : List Variable} {body : Body} {kind : NameKind} :
    (ofBody ports body).get? n = some kind ↔ Denotes n body.types (ports ++ body.vars) kind :=
  lookup_entries_iff

/-- No declaration has the name. -/
structure Undeclared (n : Ident) (ts : List TypeItem) (vs : List Variable) : Prop where
  types : ∀ t ∈ ts, t.name ≠ n ∧ ∀ m ∈ t.members, m.name ≠ n
  vars : ∀ v ∈ vs, v.name ≠ n

/-- A type has entries for its own name and those of its members. -/
theorem forall_typeEntries_iff {t : TypeItem} :
    (∀ e ∈ typeEntries t, e.1 ≠ n) ↔ t.name ≠ n ∧ ∀ m ∈ t.members, m.name ≠ n := by
  simp [typeEntries]

/-- A name denotes nothing if and only if nothing declares it. -/
private theorem get?_ofBody_eq_none_iff {ports : List Variable} {body : Body} :
    (ofBody ports body).get? n = none ↔ Undeclared n body.types (ports ++ body.vars) := by
  have hentries : (ofBody ports body).get? n = none ↔
      ∀ e ∈ body.types.flatMap typeEntries ++ (ports ++ body.vars).map variableEntry, e.1 ≠ n := by
    rw [get?, ofBody, List.lookup_eq_none_iff]
    simp only [bne_iff_ne, ne_comm]
  rw [hentries, List.forall_mem_append]
  constructor
  · rintro ⟨htypes, hvariables⟩
    refine ⟨fun t ht => forall_typeEntries_iff.mp fun e he => ?_, fun v hv => ?_⟩
    · exact htypes e (List.mem_flatMap.mpr ⟨t, ht, he⟩)
    · exact hvariables (variableEntry v) (List.mem_map_of_mem hv)
  · intro h
    refine ⟨fun e he => ?_, fun e he => ?_⟩
    · obtain ⟨t, ht, hown⟩ := List.mem_flatMap.mp he
      exact forall_typeEntries_iff.mpr (h.types t ht) e hown
    · obtain ⟨v, hv, rfl⟩ := List.mem_map.mp he
      exact h.vars v hv

end Scope

open Scope

/-- **Scopes are exact.**  A module has a scope if and only if its names are known and no two of one
kind collide, so the order of its declarations makes no difference to that.  In the scope a name
denotes what its first declaration says, and nothing if there is none. -/
theorem build_exact (c : Context) (ports : List Variable) (body : Body) :
    (Succeeds (build c ports body) ↔ Buildable c.names ports body) ∧
      (∀ ports' body', Permuted ports body ports' body' →
        (Succeeds (build c ports body) ↔ Succeeds (build c ports' body'))) ∧
      (∀ scope, build c ports body = .ok scope → ∀ n,
        (∀ kind, scope.get? n = some kind ↔
          Denotes n body.types (ports ++ body.vars) kind) ∧
        (scope.get? n = none ↔ Undeclared n body.types (ports ++ body.vars))) := by
  refine ⟨build_succeeds_iff_buildable, fun ports' body' hpermuted => ?_, fun scope hscope n => ?_⟩
  · rw [build_succeeds_iff_buildable, build_succeeds_iff_buildable]
    exact ⟨hpermuted.buildable, hpermuted.symm.buildable⟩
  · obtain rfl := build_ok hscope
    exact ⟨fun kind => get?_ofBody_iff, get?_ofBody_eq_none_iff⟩

/-- A port has the name of a member, a variable that of its type, and another variable that of a
constant among the ports. -/
theorem build_exact_overlapping :
    let c : Context := ⟨⟨["state", "IDLE", "x", "y"]⟩, "m"⟩
    let ports : List Variable :=
      [.port ⟨1⟩ .input (.bits 1 false), .constant ⟨2⟩ (.bits 8 false) (.literal (.int 3))]
    let body : Body :=
      ⟨[.enum ⟨⟨0⟩, none, [⟨⟨1⟩, none⟩]⟩],
        [.signal ⟨2⟩ (.bits 8 false), .signal ⟨0⟩ (.bits 1 false)], [], []⟩
    Buildable c.names ports body ∧ Permuted ports body ports.reverse body ∧
      Succeeds (build c ports.reverse body) ∧
      ∃ scope, build c ports body = .ok scope ∧ scope.get? ⟨0⟩ = some .type ∧
        scope.get? ⟨1⟩ = some (.enumMember ⟨0⟩) ∧ scope.get? ⟨2⟩ = some .constant ∧
        scope.get? ⟨3⟩ = none := by
  intro c ports body
  obtain ⟨hbuildable, hpermute, hdenotes⟩ := build_exact c ports body
  have hbuild : build c ports body = .ok (ofBody ports body) := rfl
  have hpermuted : Permuted ports body ports.reverse body :=
    ⟨(List.reverse_perm ports).symm.append (.refl _), .refl _, .refl _, .refl _⟩
  refine ⟨hbuildable.mp ⟨_, hbuild⟩, hpermuted, (hpermute _ _ hpermuted).mp ⟨_, hbuild⟩,
    _, hbuild, ?_, ?_, ?_, ?_⟩
  · exact ((hdenotes _ hbuild ⟨0⟩).1 _).mpr (.type rfl)
  · exact ((hdenotes _ hbuild ⟨1⟩).1 _).mpr (.member (by decide) List.mem_cons_self rfl)
  · exact ((hdenotes _ hbuild ⟨2⟩).1 _).mpr
      (.laterType (by decide) (by decide) (.laterVariable (by decide) (.constant rfl rfl)))
  · exact (hdenotes _ hbuild ⟨3⟩).2.mpr ⟨by decide, by decide⟩

end HdlSim
