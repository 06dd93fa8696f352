import HdlSim.Settings
import HdlSim.Toml.Document

/-!
# The settings file

Settings are the table `sim_model` of the project file.  Each has a default, and keys that are not
known are ignored.  The table may also be given as an array of its values, and a date in its place
counts as a table without known keys.
-/

namespace HdlSim

/-- Why settings could not be read. -/
inductive SettingsError where
  /-- There is no file that can be read as text. -/
  | unreadable
  /-- The text is not that of a settings file. -/
  | malformed
deriving DecidableEq

/-- The error in words. -/
def SettingsError.message : SettingsError → String
  | .unreadable => "failed to read configuration"
  | .malformed => "failed to parse configuration"

/-- What is found in the place of the project file. -/
inductive ProjectFile where
  | missing
  | directory
  | content (bytes : ByteArray)

namespace Settings

/-- The preamble setting that a value gives. -/
def readPreamble : Option Toml.Value → Option Bool
  | none => some standard.sharedPreamble
  | some (.bool b) => some b
  | some _ => none

/-- The path setting that a value gives. -/
def readPath : Option Toml.Value → Option (Option String)
  | none => some standard.modulePath
  | some (.str path) => some (some path)
  | some _ => none

/-- The settings that a value gives. -/
def ofValue : Toml.Value → Option Settings
  | .table _ entries => do
    return ⟨← readPreamble (entries.lookup "emit_shared_preamble"),
      ← readPath (entries.lookup "module_path_prefix")⟩
  | .array items => do return ⟨← readPreamble items[0]?, ← readPath items[1]?⟩
  | .dateTime _ => some standard
  | _ => none

/-- The settings that a text gives. -/
def parse (text : String) : Except SettingsError Settings :=
  let settings := do
    match (← Toml.parse text).lookup "sim_model" with
    | none => return standard
    | some v => ofValue v
  settings.elim (.error .malformed) .ok

/-- The settings of a project. -/
def load : ProjectFile → Except SettingsError Settings
  | .content bytes =>
    match String.fromUTF8? bytes with
    | some text => parse text
    | none => .error .unreadable
  | _ => .error .unreadable

end Settings

end HdlSim
