import HdlSim.Failure
import HdlSim.Host.Name
import HdlSim.Names
import HdlSim.Text.Join

/-!
# The module at work

The names of the design and the module that is being lowered, by which failures are reported and
the model's own types are named.
-/

namespace HdlSim

/-- The name table and the name of the module at work. -/
structure Context where
  names : NameTable
  module : String

namespace Context

/-- A failure of the module at work. -/
def defect (c : Context) (object : String) (cause : Cause) : Failure :=
  .defect c.module object cause

/-- The text of a name; a number that the table did not issue is a failure. -/
def name (c : Context) (n : Ident) : Except Failure String :=
  match c.names.resolve? n with
  | some text => .ok text
  | none => .error (c.defect ("identifier #" ++ Text.natText n.index.toNat) .unresolvedIdent)

/-- The host identifier for a name. -/
def host (c : Context) (n : Ident) : Except Failure HostName := do
  return HostName.escape (← c.name n)

/-- The texts of some names, in order. -/
def texts (c : Context) (ns : List Ident) : Except Failure (List String) := ns.mapM c.name

/-- The host identifiers for some names, in order. -/
def hosts (c : Context) (ns : List Ident) : Except Failure (List HostName) := ns.mapM c.host

/-- The type of the model. -/
def unit (c : Context) : HostName := HostName.escape c.module

/-- The type of the model's bundle of signal proxies. -/
def io (c : Context) : HostName := HostName.plain (c.unit.word ++ "Io")

end Context

end HdlSim
