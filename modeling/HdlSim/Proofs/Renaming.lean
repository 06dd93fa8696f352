import HdlSim.Proofs.Script
import HdlSim.Proofs.Targets
import HdlSim.Scope
import HdlSim.Trigger

/-!
# Renaming designs

A design refers to its names by number.  `rename` puts other numbers in their place, throughout a
module, and `idents` lists the numbers that occur.  Sorting the items of a module, collecting the
targets of statements and comparing choices commute with a renaming; for what compares names, the
renaming has to keep those apart that occur (`Expr.rename_rename`, `addTargets_map`).
-/

namespace HdlSim

/-! ### Expressions and types -/

mutual

/-- The expression with other numbers for its names. -/
def Expr.rename (r : Ident → Ident) : Expr → Expr
  | .name n => .name (r n)
  | .literal v => .literal v
  | .unary op a => .unary op (a.rename r)
  | .binary op a b => .binary op (a.rename r) (b.rename r)
  | .ternary c a b => .ternary (c.rename r) (a.rename r) (b.rename r)
  | .index a i => .index (a.rename r) (i.rename r)
  | .slice a h l => .slice (a.rename r) (h.rename r) (l.rename r)
  | .concat parts => .concat (Expr.renameList r parts)
  | .cast a t => .cast (a.rename r) (t.rename r)
  | .call f args => .call (r f) (Expr.renameList r args)
  | .edge k a => .edge k (a.rename r)
  | .type t => .type (t.rename r)

/-- The type with other numbers for its names. -/
def Ty.rename (r : Ident → Ident) : Ty → Ty
  | .bits width signed => .bits width signed
  | .enum members => .enum (EnumMember.renameList r members)
  | .array t size => .array (t.rename r) (size.rename r)
  | .named n => .named (r n)
  | .typeOfTypes => .typeOfTypes

/-- The member with other numbers for its names. -/
def EnumMember.rename (r : Ident → Ident) : EnumMember → EnumMember
  | ⟨n, value⟩ => ⟨r n, Expr.renameOption r value⟩

def Expr.renameList (r : Ident → Ident) : List Expr → List Expr
  | [] => []
  | e :: es => e.rename r :: Expr.renameList r es

def EnumMember.renameList (r : Ident → Ident) : List EnumMember → List EnumMember
  | [] => []
  | m :: ms => m.rename r :: EnumMember.renameList r ms

def Expr.renameOption (r : Ident → Ident) : Option Expr → Option Expr
  | none => none
  | some e => some (e.rename r)

end

mutual

/-- The names that occur in an expression. -/
def Expr.idents : Expr → List Ident
  | .name n => [n]
  | .literal _ => []
  | .unary _ a => a.idents
  | .binary _ a b => a.idents ++ b.idents
  | .ternary c a b => c.idents ++ a.idents ++ b.idents
  | .index a i => a.idents ++ i.idents
  | .slice a h l => a.idents ++ h.idents ++ l.idents
  | .concat parts => Expr.identsList parts
  | .cast a t => a.idents ++ t.idents
  | .call f args => f :: Expr.identsList args
  | .edge _ a => a.idents
  | .type t => t.idents

/-- The names that occur in a type. -/
def Ty.idents : Ty → List Ident
  | .bits _ _ => []
  | .enum members => EnumMember.identsList members
  | .array t size => t.idents ++ size.idents
  | .named n => [n]
  | .typeOfTypes => []

/-- The names that occur in a member. -/
def EnumMember.idents : EnumMember → List Ident
  | ⟨n, value⟩ => n :: Expr.identsOption value

def Expr.identsList : List Expr → List Ident
  | [] => []
  | e :: es => e.idents ++ Expr.identsList es

def EnumMember.identsList : List EnumMember → List Ident
  | [] => []
  | m :: ms => m.idents ++ EnumMember.identsList ms

def Expr.identsOption : Option Expr → List Ident
  | none => []
  | some e => e.idents

end

section

variable {r l : Ident → Ident}

/-- Expressions are renamed one by one. -/
@[simp] theorem Expr.renameList_eq (es : List Expr) :
    Expr.renameList r es = es.map (Expr.rename r) := by
  induction es with
  | nil => rfl
  | cons e es ih => rw [Expr.renameList, ih, List.map_cons]

/-- Members are renamed one by one. -/
@[simp] theorem EnumMember.renameList_eq (ms : List EnumMember) :
    EnumMember.renameList r ms = ms.map (EnumMember.rename r) := by
  induction ms with
  | nil => rfl
  | cons m ms ih => rw [EnumMember.renameList, ih, List.map_cons]

/-- The names in expressions are those in each of them. -/
@[simp] theorem Expr.identsList_eq (es : List Expr) :
    Expr.identsList es = es.flatMap Expr.idents := by
  induction es with
  | nil => rfl
  | cons e es ih => rw [Expr.identsList, ih, List.flatMap_cons]

/-- The names in members are those in each of them. -/
@[simp] theorem EnumMember.identsList_eq (ms : List EnumMember) :
    EnumMember.identsList ms = ms.flatMap EnumMember.idents := by
  induction ms with
  | nil => rfl
  | cons m ms ih => rw [EnumMember.identsList, ih, List.flatMap_cons]

/-- The name of a renamed member. -/
@[simp] theorem EnumMember.name_rename (m : EnumMember) : (m.rename r).name = r m.name := by
  cases m
  rfl

mutual

/-- **Renaming back.**  A renaming that can be undone on the names of an expression can be undone on
the expression. -/
theorem Expr.rename_rename : ∀ e : Expr, (∀ n ∈ e.idents, l (r n) = n) →
    (e.rename r).rename l = e
  | .name n, h => by
      rw [Expr.rename, Expr.rename, h n (List.mem_singleton_self n)]
  | .literal _, _ => rfl
  | .unary _ a, h => by
      rw [Expr.rename, Expr.rename, Expr.rename_rename a h]
  | .binary _ a b, h => by
      obtain ⟨ha, hb⟩ := List.forall_mem_append.mp h
      rw [Expr.rename, Expr.rename, Expr.rename_rename a ha, Expr.rename_rename b hb]
  | .ternary c a b, h => by
      obtain ⟨hca, hb⟩ := List.forall_mem_append.mp h
      obtain ⟨hc, ha⟩ := List.forall_mem_append.mp hca
      rw [Expr.rename, Expr.rename, Expr.rename_rename c hc, Expr.rename_rename a ha,
        Expr.rename_rename b hb]
  | .index a i, h => by
      obtain ⟨ha, hi⟩ := List.forall_mem_append.mp h
      rw [Expr.rename, Expr.rename, Expr.rename_rename a ha, Expr.rename_rename i hi]
  | .slice a hi lo, h => by
      obtain ⟨hahi, hlo⟩ := List.forall_mem_append.mp h
      obtain ⟨ha, hhi⟩ := List.forall_mem_append.mp hahi
      rw [Expr.rename, Expr.rename, Expr.rename_rename a ha, Expr.rename_rename hi hhi,
        Expr.rename_rename lo hlo]
  | .concat parts, h => by
      rw [Expr.rename, Expr.rename, Expr.renameList_renameList parts h]
  | .cast a t, h => by
      obtain ⟨ha, ht⟩ := List.forall_mem_append.mp h
      rw [Expr.rename, Expr.rename, Expr.rename_rename a ha, Ty.rename_rename t ht]
  | .call f args, h => by
      obtain ⟨hf, hargs⟩ := List.forall_mem_cons.mp h
      rw [Expr.rename, Expr.rename, hf, Expr.renameList_renameList args hargs]
  | .edge _ a, h => by
      rw [Expr.rename, Expr.rename, Expr.rename_rename a h]
  | .type t, h => by
      rw [Expr.rename, Expr.rename, Ty.rename_rename t h]

/-- A renaming that can be undone on the names of a type can be undone on the type. -/
theorem Ty.rename_rename : ∀ t : Ty, (∀ n ∈ t.idents, l (r n) = n) → (t.rename r).rename l = t
  | .bits _ _, _ => rfl
  | .enum members, h => by
      rw [Ty.rename, Ty.rename, EnumMember.renameList_renameList members h]
  | .array t size, h => by
      obtain ⟨ht, hsize⟩ := List.forall_mem_append.mp h
      rw [Ty.rename, Ty.rename, Ty.rename_rename t ht, Expr.rename_rename size hsize]
  | .named n, h => by
      rw [Ty.rename, Ty.rename, h n (List.mem_singleton_self n)]
  | .typeOfTypes, _ => rfl

/-- A renaming that can be undone on the names of a member can be undone on the member. -/
theorem EnumMember.rename_rename : ∀ m : EnumMember, (∀ n ∈ m.idents, l (r n) = n) →
    (m.rename r).rename l = m
  | ⟨n, value⟩, h => by
      obtain ⟨hn, hvalue⟩ := List.forall_mem_cons.mp h
      rw [EnumMember.rename, EnumMember.rename, hn, Expr.renameOption_renameOption value hvalue]

/-- A renaming that can be undone on the names of expressions can be undone on them. -/
theorem Expr.renameList_renameList : ∀ es : List Expr, (∀ n ∈ Expr.identsList es, l (r n) = n) →
    Expr.renameList l (Expr.renameList r es) = es
  | [], _ => rfl
  | e :: es, h => by
      obtain ⟨he, hes⟩ := List.forall_mem_append.mp h
      rw [Expr.renameList, Expr.renameList, Expr.rename_rename e he,
        Expr.renameList_renameList es hes]

/-- A renaming that can be undone on the names of members can be undone on them. -/
theorem EnumMember.renameList_renameList : ∀ ms : List EnumMember,
    (∀ n ∈ EnumMember.identsList ms, l (r n) = n) →
    EnumMember.renameList l (EnumMember.renameList r ms) = ms
  | [], _ => rfl
  | m :: ms, h => by
      obtain ⟨hm, hms⟩ := List.forall_mem_append.mp h
      rw [EnumMember.renameList, EnumMember.renameList, EnumMember.rename_rename m hm,
        EnumMember.renameList_renameList ms hms]

/-- A renaming can be undone as well on an expression that may be missing. -/
theorem Expr.renameOption_renameOption : ∀ e : Option Expr,
    (∀ n ∈ Expr.identsOption e, l (r n) = n) →
    Expr.renameOption l (Expr.renameOption r e) = e
  | none, _ => rfl
  | some e, h => by
      rw [Expr.renameOption, Expr.renameOption, Expr.rename_rename e h]

end

/-- An expression is a name as well after a renaming. -/
theorem Expr.asName?_rename (e : Expr) : (e.rename r).asName? = e.asName?.map r := by
  cases e <;> rfl

/-- An expression that is a name has that name in it. -/
theorem Expr.mem_idents_of_asName? {e : Expr} {n : Ident} (h : e.asName? = some n) :
    n ∈ e.idents := by
  cases e <;> simp_all [Expr.asName?, Expr.idents]

/-- The signal that an expression assigns to is renamed with it. -/
private theorem Expr.targetRoot?_rename (e : Expr) :
    (e.rename r).targetRoot? = e.targetRoot?.map r := by
  cases e <;> first | rfl | exact Expr.asName?_rename _

/-- The signal that an expression assigns to is one of its names. -/
private theorem Expr.mem_idents_of_targetRoot? {e : Expr} {n : Ident} (h : e.targetRoot? = some n) :
    n ∈ e.idents := by
  cases e with
  | index base i => exact List.mem_append_left _ (mem_idents_of_asName? h)
  | slice base high low =>
      exact List.mem_append_left _ (List.mem_append_left _ (mem_idents_of_asName? h))
  | name n => exact mem_idents_of_asName? h
  | _ => cases h

end

/-! ### Statements -/

mutual

/-- The statement with other numbers for its names. -/
def Stmt.rename (r : Ident → Ident) : Stmt → Stmt
  | .assign target value => .assign (target.rename r) (value.rename r)
  | .ifElse branches elseBody =>
    .ifElse (IfBranch.renameList r branches) (Stmt.renameOption r elseBody)
  | .case selector arms default =>
    .case (selector.rename r) (CaseArm.renameList r arms) (Stmt.renameOption r default)
  | .block body => .block (Stmt.renameList r body)
  | .null => .null

/-- The branch with other numbers for its names. -/
def IfBranch.rename (r : Ident → Ident) : IfBranch → IfBranch
  | ⟨condition, body⟩ => ⟨condition.rename r, Stmt.renameList r body⟩

/-- The arm with other numbers for its names. -/
def CaseArm.rename (r : Ident → Ident) : CaseArm → CaseArm
  | ⟨choices, body⟩ => ⟨choices.map (Expr.rename r), Stmt.renameList r body⟩

def Stmt.renameList (r : Ident → Ident) : List Stmt → List Stmt
  | [] => []
  | first :: rest => first.rename r :: Stmt.renameList r rest

def Stmt.renameOption (r : Ident → Ident) : Option (List Stmt) → Option (List Stmt)
  | none => none
  | some body => some (Stmt.renameList r body)

def IfBranch.renameList (r : Ident → Ident) : List IfBranch → List IfBranch
  | [] => []
  | b :: bs => b.rename r :: IfBranch.renameList r bs

def CaseArm.renameList (r : Ident → Ident) : List CaseArm → List CaseArm
  | [] => []
  | a :: as => a.rename r :: CaseArm.renameList r as

end

mutual

/-- The names that occur in a statement. -/
def Stmt.idents : Stmt → List Ident
  | .assign target value => target.idents ++ value.idents
  | .ifElse branches elseBody => IfBranch.identsList branches ++ Stmt.identsOption elseBody
  | .case selector arms default =>
    selector.idents ++ CaseArm.identsList arms ++ Stmt.identsOption default
  | .block body => Stmt.identsList body
  | .null => []

/-- The names that occur in a branch. -/
def IfBranch.idents : IfBranch → List Ident
  | ⟨condition, body⟩ => condition.idents ++ Stmt.identsList body

/-- The names that occur in an arm. -/
def CaseArm.idents : CaseArm → List Ident
  | ⟨choices, body⟩ => choices.flatMap Expr.idents ++ Stmt.identsList body

def Stmt.identsList : List Stmt → List Ident
  | [] => []
  | first :: rest => first.idents ++ Stmt.identsList rest

def Stmt.identsOption : Option (List Stmt) → List Ident
  | none => []
  | some body => Stmt.identsList body

def IfBranch.identsList : List IfBranch → List Ident
  | [] => []
  | b :: bs => b.idents ++ IfBranch.identsList bs

def CaseArm.identsList : List CaseArm → List Ident
  | [] => []
  | a :: as => a.idents ++ CaseArm.identsList as

end

section

variable {r : Ident → Ident}

/-- A renamed body has as many statements. -/
theorem Stmt.length_renameList (body : List Stmt) :
    (Stmt.renameList r body).length = body.length := by
  induction body with
  | nil => rfl
  | cons st body ih => rw [Stmt.renameList, List.length_cons, List.length_cons, ih]

/-- Names that are in two lists together. -/
theorem append_subset_append {a b a' b' : List Ident} (hfront : a ⊆ a') (hback : b ⊆ b') :
    a ++ b ⊆ a' ++ b' :=
  List.append_subset.mpr ⟨List.subset_append_of_subset_left _ hfront,
    List.subset_append_of_subset_right _ hback⟩

/-- The choices of a case statement, before and after a renaming. -/
theorem CaseArm.choices_renameList (arms : List CaseArm) :
    (CaseArm.renameList r arms).flatMap CaseArm.choices =
      (arms.flatMap CaseArm.choices).map (Expr.rename r) := by
  induction arms with
  | nil => rfl
  | cons arm arms ih =>
      obtain ⟨choices, body⟩ := arm
      rw [CaseArm.renameList, List.flatMap_cons, List.flatMap_cons, ih, List.map_append]
      rfl

/-- The names in choices are names in the arms. -/
theorem CaseArm.choices_subset (arms : List CaseArm) :
    (arms.flatMap CaseArm.choices).flatMap Expr.idents ⊆ CaseArm.identsList arms := by
  induction arms with
  | nil => exact List.Subset.refl _
  | cons arm arms ih =>
      obtain ⟨choices, body⟩ := arm
      rw [CaseArm.identsList, CaseArm.idents, List.flatMap_cons, List.flatMap_append]
      exact append_subset_append (List.subset_append_left _ _) ih

mutual

/-- A renamed statement writes the renamed signals. -/
theorem Stmt.writes_rename : ∀ st : Stmt, (st.rename r).writes = st.writes.map r
  | .assign target _ => by
      rw [Stmt.rename, Stmt.writes, Stmt.writes, Expr.targetRoot?_rename]
      cases target.targetRoot? <;> rfl
  | .ifElse branches elseBody => by
      rw [Stmt.rename, Stmt.writes, Stmt.writes, branchWrites_rename branches,
        optionWrites_rename elseBody, List.map_append]
  | .case _ arms default => by
      rw [Stmt.rename, Stmt.writes, Stmt.writes, armWrites_rename arms,
        optionWrites_rename default, List.map_append]
  | .block body => by
      rw [Stmt.rename, Stmt.writes, Stmt.writes, blockWrites_rename body]
  | .null => rfl

/-- A renamed body writes the renamed signals. -/
theorem blockWrites_rename : ∀ body : List Stmt,
    blockWrites (Stmt.renameList r body) = (blockWrites body).map r
  | [] => rfl
  | first :: rest => by
      rw [Stmt.renameList, blockWrites, blockWrites, Stmt.writes_rename first,
        blockWrites_rename rest, List.map_append]

/-- Renamed branches write the renamed signals. -/
theorem branchWrites_rename : ∀ branches : List IfBranch,
    branchWrites (IfBranch.renameList r branches) = (branchWrites branches).map r
  | [] => rfl
  | ⟨_, body⟩ :: rest => by
      rw [IfBranch.renameList, IfBranch.rename, branchWrites, branchWrites,
        blockWrites_rename body, branchWrites_rename rest, List.map_append]

/-- Renamed arms write the renamed signals. -/
theorem armWrites_rename : ∀ arms : List CaseArm,
    armWrites (CaseArm.renameList r arms) = (armWrites arms).map r
  | [] => rfl
  | ⟨_, body⟩ :: rest => by
      rw [CaseArm.renameList, CaseArm.rename, armWrites, armWrites, blockWrites_rename body,
        armWrites_rename rest, List.map_append]

/-- A renamed body that may be missing writes the renamed signals. -/
theorem optionWrites_rename : ∀ body : Option (List Stmt),
    optionWrites (Stmt.renameOption r body) = (optionWrites body).map r
  | none => rfl
  | some body => by
      rw [Stmt.renameOption, optionWrites, optionWrites, blockWrites_rename body]

end

mutual

/-- What a statement writes occurs in it. -/
theorem Stmt.writes_subset : ∀ st : Stmt, st.writes ⊆ st.idents
  | .assign target _ => by
      intro n hn
      exact List.mem_append_left _
        (Expr.mem_idents_of_targetRoot? (Option.mem_toList.mp hn))
  | .ifElse branches elseBody =>
      append_subset_append (branchWrites_subset branches) (optionWrites_subset elseBody)
  | .case _ arms default =>
      append_subset_append
        (List.subset_append_of_subset_right _ (armWrites_subset arms))
        (optionWrites_subset default)
  | .block body => blockWrites_subset body
  | .null => List.Subset.refl _

/-- What a body writes are names in it. -/
theorem blockWrites_subset : ∀ body : List Stmt, blockWrites body ⊆ Stmt.identsList body
  | [] => List.Subset.refl _
  | first :: rest => append_subset_append (Stmt.writes_subset first) (blockWrites_subset rest)

/-- What branches write are names in them. -/
theorem branchWrites_subset : ∀ branches : List IfBranch,
    branchWrites branches ⊆ IfBranch.identsList branches
  | [] => List.Subset.refl _
  | ⟨_, body⟩ :: rest =>
      append_subset_append
        (List.subset_append_of_subset_right _ (blockWrites_subset body))
        (branchWrites_subset rest)

/-- What arms write are names in them. -/
theorem armWrites_subset : ∀ arms : List CaseArm, armWrites arms ⊆ CaseArm.identsList arms
  | [] => List.Subset.refl _
  | ⟨_, body⟩ :: rest =>
      append_subset_append
        (List.subset_append_of_subset_right _ (blockWrites_subset body))
        (armWrites_subset rest)

/-- What a body that may be missing writes are names in it. -/
theorem optionWrites_subset : ∀ body : Option (List Stmt),
    optionWrites body ⊆ Stmt.identsOption body
  | none => List.Subset.refl _
  | some body => blockWrites_subset body

end

end

/-! ### Declarations and modules -/

section

variable (r : Ident → Ident)

def Variable.rename (d : Variable) : Variable :=
  { d with
    name := r d.name
    type := d.type.rename r
    value := d.value.map (Expr.rename r) }

def EnumDecl.rename (d : EnumDecl) : EnumDecl :=
  { d with name := r d.name, members := d.members.map (EnumMember.rename r) }

def ArrayDecl.rename (d : ArrayDecl) : ArrayDecl :=
  { d with name := r d.name, element := d.element.rename r, size := d.size.rename r }

def ProcessDecl.rename (p : ProcessDecl) : ProcessDecl :=
  { p with
    label := r p.label
    sensitivity := p.sensitivity.map (Expr.rename r)
    body := Stmt.renameList r p.body
    outputs := p.outputs.map (List.map r) }

def PortBinding.rename (b : PortBinding) : PortBinding := ⟨r b.port, r b.signal⟩

def Instance.rename (i : Instance) : Instance :=
  { i with
    name := r i.name
    moduleName := r i.moduleName
    portMap := i.portMap.map (PortBinding.rename r) }

def FunctionDecl.rename (f : FunctionDecl) : FunctionDecl :=
  ⟨r f.name, f.params.map r, Stmt.renameList r f.body⟩

def Generic.rename (g : Generic) : Generic :=
  ⟨r g.name, g.type.rename r, g.default.map (Expr.rename r)⟩

def Item.rename : Item → Item
  | .enumType d => .enumType (d.rename r)
  | .arrayType d => .arrayType (d.rename r)
  | .varDecl d => .varDecl (d.rename r)
  | .process p => .process (p.rename r)
  | .subunit i => .subunit (i.rename r)
  | .function f => .function (f.rename r)

/-- The module with other numbers for its names. -/
def Module.rename (m : Module) : Module where
  name := r m.name
  doc := m.doc
  params := m.params.map (Generic.rename r)
  ports := m.ports.map (Variable.rename r)
  items := m.items.map (Item.rename r)

end

def Variable.idents (d : Variable) : List Ident :=
  d.name :: d.type.idents ++ d.value.toList.flatMap Expr.idents

def EnumDecl.idents (d : EnumDecl) : List Ident := d.name :: d.members.flatMap EnumMember.idents

def ArrayDecl.idents (d : ArrayDecl) : List Ident := d.name :: d.element.idents ++ d.size.idents

def ProcessDecl.idents (p : ProcessDecl) : List Ident :=
  p.label :: p.sensitivity.flatMap Expr.idents ++ Stmt.identsList p.body ++ p.outputs.getD []

def PortBinding.idents (b : PortBinding) : List Ident := [b.port, b.signal]

def Instance.idents (i : Instance) : List Ident :=
  i.name :: i.moduleName :: i.portMap.flatMap PortBinding.idents

def FunctionDecl.idents (f : FunctionDecl) : List Ident :=
  f.name :: f.params ++ Stmt.identsList f.body

def Generic.idents (g : Generic) : List Ident :=
  g.name :: g.type.idents ++ g.default.toList.flatMap Expr.idents

def Item.idents : Item → List Ident
  | .enumType d => d.idents
  | .arrayType d => d.idents
  | .varDecl d => d.idents
  | .process p => p.idents
  | .subunit i => i.idents
  | .function f => f.idents

/-- The names that occur in a module. -/
def Module.idents (m : Module) : List Ident :=
  m.name :: m.params.flatMap Generic.idents ++ m.ports.flatMap Variable.idents ++
    m.items.flatMap Item.idents

/-! ### Sorted bodies and scopes -/

section

variable (r : Ident → Ident)

def TypeItem.rename : TypeItem → TypeItem
  | .enum d => .enum (d.rename r)
  | .array d => .array (d.rename r)
  | .synonym d => .synonym (d.rename r)

def Body.rename (b : Body) : Body where
  types := b.types.map (TypeItem.rename r)
  vars := b.vars.map (Variable.rename r)
  processes := b.processes.map (ProcessDecl.rename r)
  instances := b.instances.map (Instance.rename r)

def NameKind.rename : NameKind → NameKind
  | .proxy => .proxy
  | .constant => .constant
  | .type => .type
  | .enumMember enumeration => .enumMember (r enumeration)

def Scope.rename (s : Scope) : Scope :=
  ⟨s.entries.map fun (n, kind) => (r n, kind.rename r)⟩

def Trigger.rename (t : Trigger) : Trigger := { t with signal := r t.signal }

end

def TypeItem.idents : TypeItem → List Ident
  | .enum d => d.idents
  | .array d => d.idents
  | .synonym d => d.idents

/-- The names that a scope has entries for, and those in the entries. -/
def Scope.idents (s : Scope) : List Ident :=
  s.entries.flatMap fun
    | (n, .enumMember type) => [n, type]
    | (n, _) => [n]

section

variable {r : Ident → Ident}

/-- The name of a renamed type. -/
@[simp] theorem TypeItem.name_rename (t : TypeItem) : (t.rename r).name = r t.name := by
  cases t <;> rfl

@[simp] theorem TypeItem.doc_rename (t : TypeItem) : (t.rename r).doc = t.doc := by
  cases t <;> rfl

/-- The type of types stays itself. -/
@[simp] theorem Ty.isTypeOfTypes_rename (t : Ty) :
    (t.rename r).isTypeOfTypes = t.isTypeOfTypes := by
  cases t <;> rfl

private theorem TypeItem.members_rename (t : TypeItem) :
    (t.rename r).members = t.members.map (EnumMember.rename r) := by
  cases t with
  | enum d => rfl
  | array d => rfl
  | synonym d =>
      obtain ⟨name, doc, type, value, isConst, direction⟩ := d
      cases value with
      | none => rfl
      | some e =>
          cases e with
          | type t =>
              cases t with
              | enum members => exact EnumMember.renameList_eq members
              | _ => rfl
          | _ => rfl

/-- Renamed items are sorted into the renamed body. -/
theorem Body.ofItems_rename (items : List Item) :
    Body.ofItems (items.map (Item.rename r)) = (Body.ofItems items).rename r := by
  unfold ofItems rename
  congr 1
  · refine filterMap_map_comm (fun item => ?_) items
    cases item with
    | varDecl d =>
        show (if (d.type.rename r).isTypeOfTypes then some (TypeItem.synonym (d.rename r))
          else none) = (if d.type.isTypeOfTypes then some (TypeItem.synonym d) else none).map _
        rw [Ty.isTypeOfTypes_rename]
        split <;> rfl
    | _ => rfl
  · refine filterMap_map_comm (fun item => ?_) items
    cases item with
    | varDecl d =>
        show (if (d.type.rename r).isTypeOfTypes then none else some (d.rename r)) =
          (if d.type.isTypeOfTypes then none else some d).map _
        rw [Ty.isTypeOfTypes_rename]
        split <;> rfl
    | _ => rfl
  · refine filterMap_map_comm (fun item => ?_) items
    cases item <;> rfl
  · refine filterMap_map_comm (fun item => ?_) items
    cases item <;> rfl

/-- The names of fields in a renamed body. -/
theorem Scope.fieldNames_rename (ports : List Variable) (body : Body) :
    fieldNames (ports.map (Variable.rename r)) (body.rename r) =
      (fieldNames ports body).map r := by
  simp [fieldNames, Body.rename, Function.comp_def, Variable.rename, Instance.rename]

/-- The names of functions in a renamed body. -/
theorem Scope.functionNames_rename (body : Body) :
    functionNames (body.rename r) = (functionNames body).map r := by
  simp [functionNames, Body.rename, Function.comp_def, ProcessDecl.rename]

/-- The scope of a renamed body. -/
theorem Scope.ofBody_rename (ports : List Variable) (body : Body) :
    ofBody (ports.map (Variable.rename r)) (body.rename r) = (ofBody ports body).rename r := by
  have htype : ∀ t : TypeItem, typeEntries (t.rename r) =
      (typeEntries t).map fun (n, kind) => (r n, kind.rename r) := by
    intro t
    simp [typeEntries, TypeItem.members_rename, Function.comp_def, NameKind.rename]
  have hvariable : ∀ d : Variable, variableEntry (d.rename r) =
      (r (variableEntry d).1, (variableEntry d).2.rename r) := by
    intro d
    unfold variableEntry
    cases hconst : d.isConst <;> simp [Variable.rename, hconst, NameKind.rename]
  have htypes : (body.rename r).types.flatMap typeEntries =
      (body.types.flatMap typeEntries).map fun (n, kind) => (r n, kind.rename r) := by
    simp only [Body.rename, List.flatMap_map, List.map_flatMap, htype]
  have hvariables : (ports.map (Variable.rename r) ++ (body.rename r).vars).map variableEntry =
      ((ports ++ body.vars).map variableEntry).map fun (n, kind) => (r n, kind.rename r) := by
    simp only [Body.rename, ← List.map_append, List.map_map, Function.comp_def, hvariable]
  unfold ofBody Scope.rename
  rw [htypes, hvariables, ← List.map_append]

end

/-! ### Names that occur in the groups -/

/-- The names in the groups of a body are among these. -/
structure Body.Within (ns : List Ident) (b : Body) : Prop where
  types : ∀ t ∈ b.types, t.idents ⊆ ns
  vars : ∀ d ∈ b.vars, d.idents ⊆ ns
  processes : ∀ p ∈ b.processes, p.idents ⊆ ns
  instances : ∀ i ∈ b.instances, i.idents ⊆ ns

section

variable {ns : List Ident}

/-- What is found in a body has its names. -/
theorem within_filterMap {β : Type} {f : Item → Option β} {idents : β → List Ident}
    {items : List Item} (hitems : ∀ item ∈ items, item.idents ⊆ ns)
    (hf : ∀ item b, f item = some b → idents b = item.idents) :
    ∀ b ∈ items.filterMap f, idents b ⊆ ns := by
  intro b hb
  obtain ⟨item, hitem, hfound⟩ := List.mem_filterMap.mp hb
  rw [hf item b hfound]
  exact hitems item hitem

/-- The names in a sorted body are names in the items. -/
theorem Body.within_ofItems {items : List Item} (hitems : ∀ item ∈ items, item.idents ⊆ ns) :
    (Body.ofItems items).Within ns where
  types := by
    refine within_filterMap hitems fun item t h => ?_
    cases item with
    | enumType d =>
        cases h
        rfl
    | arrayType d =>
        cases h
        rfl
    | varDecl d =>
        rw [Item.typeItem?, Option.ite_none_right_eq_some] at h
        cases h.2
        rfl
    | _ => cases h
  vars := by
    refine within_filterMap hitems fun item d h => ?_
    cases item with
    | varDecl d' =>
        rw [Item.varDecl?, Option.ite_none_left_eq_some] at h
        cases h.2
        rfl
    | _ => cases h
  processes := by
    refine within_filterMap hitems fun item p h => ?_
    cases item with
    | process p' =>
        cases h
        rfl
    | _ => cases h
  instances := by
    refine within_filterMap hitems fun item i h => ?_
    cases item with
    | subunit i' =>
        cases h
        rfl
    | _ => cases h

/-- The name of a variable is one of its names. -/
theorem Variable.name_mem {d : Variable} (h : d.idents ⊆ ns) : d.name ∈ ns :=
  h (List.mem_cons_self ..)

/-- The name of a type is one of its names. -/
theorem TypeItem.name_mem {t : TypeItem} (h : t.idents ⊆ ns) : t.name ∈ ns := by
  cases t <;> exact h (List.mem_cons_self ..)

/-- The name of a member is one of its names. -/
theorem EnumMember.name_mem_idents (m : EnumMember) : m.name ∈ m.idents := by
  cases m
  exact List.mem_cons_self ..

/-- The names of members are names of the type. -/
private theorem TypeItem.member_mem {t : TypeItem} (h : t.idents ⊆ ns) {m : EnumMember}
    (hm : m ∈ t.members) : m.name ∈ ns := by
  refine h ?_
  cases t with
  | enum d =>
      exact List.mem_cons_of_mem _ (List.mem_flatMap.mpr ⟨m, hm, m.name_mem_idents⟩)
  | array d => cases hm
  | synonym d =>
      unfold TypeItem.members at hm
      split at hm
      · next heq => cases heq
      · next members _ _ _ _ _ heq =>
          obtain rfl := TypeItem.synonym.inj heq
          refine List.mem_append_right _ (List.mem_flatMap.mpr ⟨_, List.mem_singleton_self _, ?_⟩)
          rw [Expr.idents, Ty.idents, EnumMember.identsList_eq]
          exact List.mem_flatMap.mpr ⟨m, hm, m.name_mem_idents⟩
      · cases hm

/-- The names in a scope are names in the body. -/
theorem Scope.ofBody_within {ports : List Variable} {body : Body}
    (hports : ∀ d ∈ ports, d.idents ⊆ ns) (hbody : body.Within ns) :
    (ofBody ports body).idents ⊆ ns := by
  intro n hn
  obtain ⟨entry, hentry, hn⟩ := List.mem_flatMap.mp hn
  rcases List.mem_append.mp hentry with htype | hvariable
  · obtain ⟨t, ht, hentry⟩ := List.mem_flatMap.mp htype
    have hname := TypeItem.name_mem (hbody.types t ht)
    rcases List.mem_cons.mp hentry with rfl | hmember
    · obtain rfl := List.mem_singleton.mp hn
      exact hname
    · obtain ⟨m, hm, rfl⟩ := List.mem_map.mp hmember
      rcases List.mem_cons.mp hn with rfl | htype
      · exact TypeItem.member_mem (hbody.types t ht) hm
      · obtain rfl := List.mem_singleton.mp htype
        exact hname
  · obtain ⟨d, hd, rfl⟩ := List.mem_map.mp hvariable
    have hname : d.name ∈ ns := by
      rcases List.mem_append.mp hd with hd | hd
      · exact Variable.name_mem (hports d hd)
      · exact Variable.name_mem (hbody.vars d hd)
    unfold variableEntry at hn
    cases hconst : d.isConst <;> simp [hconst] at hn <;> exact hn ▸ hname

end

/-! ### Renamings that can be undone -/

section

variable {r l : Ident → Ident} {ns : List Ident} (hback : ∀ n ∈ ns, l (r n) = n)

include hback

/-- A renaming that can be undone brings no names together. -/
theorem rename_inj {n k : Ident} (hn : n ∈ ns) (hk : k ∈ ns) : r n = r k ↔ n = k := by
  refine ⟨fun h => ?_, congrArg r⟩
  rw [← hback n hn, h, hback k hk]

/-- What a name denotes, after a renaming. -/
theorem Scope.get?_rename {s : Scope} (hs : s.idents ⊆ ns) {n : Ident} (hn : n ∈ ns) :
    (s.rename r).get? (r n) = (s.get? n).map (NameKind.rename r) := by
  obtain ⟨entries⟩ := s
  induction entries with
  | nil => rfl
  | cons entry entries ih =>
      obtain ⟨k, kind⟩ := entry
      obtain ⟨hkind, hrest⟩ := List.append_subset.mp hs
      have hk : k ∈ ns := hkind (by cases kind <;> exact List.mem_cons_self ..)
      have hbeq : (r n == r k) = (n == k) := by
        rw [Bool.eq_iff_iff, beq_iff_eq, beq_iff_eq, rename_inj hback hn hk]
      show List.lookup (r n) ((r k, kind.rename r) :: _) = (List.lookup n ((k, kind) :: _)).map _
      rw [List.lookup_cons, List.lookup_cons, hbeq]
      cases n == k with
      | true => rfl
      | false => exact ih hrest

/-- Renamed targets are collected alike. -/
theorem addTargets_map {seen ks : List Ident} (hseen : seen ⊆ ns) (hks : ks ⊆ ns) :
    addTargets (seen.map r) (ks.map r) = (addTargets seen ks).map r := by
  induction ks generalizing seen with
  | nil => rfl
  | cons k ks ih =>
      obtain ⟨hk, hks⟩ := List.cons_subset.mp hks
      have hmem : r k ∈ seen.map r ↔ k ∈ seen := by
        refine ⟨fun h => ?_, List.mem_map_of_mem⟩
        obtain ⟨j, hj, heq⟩ := List.mem_map.mp h
        exact (rename_inj hback (hseen hj) hk).mp heq ▸ hj
      have hadd : addTarget (seen.map r) (some (r k)) = (addTarget seen (some k)).map r := by
        by_cases h : k ∈ seen <;> simp [addTarget, hmem, h]
      have hnext : addTarget seen (some k) ⊆ ns := by
        by_cases h : k ∈ seen <;> simp [addTarget, h, hseen, hk]
      show addTargets (addTarget (seen.map r) (some (r k))) (ks.map r) =
        (addTargets (addTarget seen (some k)) ks).map r
      rw [hadd, ih hnext hks]

end

end HdlSim
