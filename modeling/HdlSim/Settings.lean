/-!
# Settings

How models are put into files.
-/

namespace HdlSim

/-- The settings of a project. -/
structure Settings where
  /-- Whether models get the preamble of imports at all. -/
  sharedPreamble : Bool
  /-- Where the models of sub-modules are found, when each model has a file of its own. -/
  modulePath : Option String
deriving DecidableEq

namespace Settings

/-- One file with one preamble. -/
def standard : Settings := ⟨true, none⟩

/-- A file for each model, found under the given path. -/
def withModulePath (path : String) : Settings := { standard with modulePath := some path }

end Settings

end HdlSim
