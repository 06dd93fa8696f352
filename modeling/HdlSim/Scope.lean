import HdlSim.Body

/-!
# Scopes

What the names of a module denote.  Names that are escaped to host identifiers may collide, so
before a scope is made, the names that become fields (ports, variables, instances) and those that
become functions (types, processes) are checked for collisions.
-/

namespace HdlSim

/-- What a name denotes. -/
inductive NameKind where
  /-- A signal, reached through its proxy. -/
  | proxy
  | constant
  | type
  /-- A member of the enumeration with this name. -/
  | enumMember (type : Ident)
deriving DecidableEq

/-- Names and what they denote; of two entries for one name the first counts. -/
structure Scope where
  entries : List (Ident × NameKind)
deriving DecidableEq

namespace Scope

/-- What a name denotes, if anything. -/
def get? (s : Scope) (n : Ident) : Option NameKind := s.entries.lookup n

/-- The names that a declaration of a type brings into scope: its own, then its members. -/
def typeEntries (t : TypeItem) : List (Ident × NameKind) :=
  (t.name, .type) :: t.members.map fun m => (m.name, .enumMember t.name)

/-- The name of a port or variable and what it denotes. -/
def variableEntry (v : Variable) : Ident × NameKind :=
  (v.name, if v.isConst then .constant else .proxy)

/-- The scope of a module: its types, then its ports, then its variables. -/
def ofBody (ports : List Variable) (body : Body) : Scope :=
  ⟨body.types.flatMap typeEntries ++ (ports ++ body.vars).map variableEntry⟩

/-- Takes the host identifier for one more name.  It may have been taken for the same name, but not
for another. -/
def reserve (c : Context) (taken : List (HostName × Ident)) (n : Ident) :
    Except Failure (List (HostName × Ident)) := do
  let host ← c.host n
  match taken.lookup host with
  | none => return (host, n) :: taken
  | some first =>
    if first = n then return taken
    else
      let name ← c.name n
      let firstName ← c.name first
      throw (c.defect ("name `" ++ name ++ "`") (.nameCollision firstName))

/-- Takes the host identifiers for some names, in order. -/
def reserveAll (c : Context) (names : List Ident) : Except Failure Unit := do
  let _ ← names.foldlM (reserve c) []

/-- The names that become fields of the model or of its bundle of proxies. -/
def fieldNames (ports : List Variable) (body : Body) : List Ident :=
  (ports ++ body.vars).map Variable.name ++ body.instances.map Instance.name

/-- The names that become functions of the model. -/
def functionNames (body : Body) : List Ident :=
  body.types.map TypeItem.name ++ body.processes.map ProcessDecl.label

/-- The scope of a module, if no two of its names collide. -/
def build (c : Context) (ports : List Variable) (body : Body) : Except Failure Scope := do
  reserveAll c (fieldNames ports body)
  reserveAll c (functionNames body)
  return ofBody ports body

end Scope

end HdlSim
