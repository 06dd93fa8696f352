import HdlSim.Design.Decode
import HdlSim.Design.Encode
import HdlSim.Session
import HdlSim.Settings.File
import HdlSim.Proofs.Rendering
import HdlSim.Proofs.Literal
import HdlSim.Proofs.Token
import HdlSim.Proofs.Quotation
import HdlSim.Proofs.Grammar
import HdlSim.Proofs.RoundTrip
import HdlSim.Proofs.Parser
import HdlSim.Proofs.Escaping
import HdlSim.Proofs.Mirror
import HdlSim.Proofs.Program
import HdlSim.Proofs.Targets
import HdlSim.Proofs.Execution
import HdlSim.Proofs.Refinement
import HdlSim.Proofs.WellFormed
import HdlSim.Proofs.Acceptance
import HdlSim.Proofs.ModuleAcceptance
import HdlSim.Proofs.Blocks
import HdlSim.Proofs.Commands
import HdlSim.Proofs.Layout
import HdlSim.Proofs.Registration
import HdlSim.Proofs.ModuleRegistration
import HdlSim.Proofs.Runs
import HdlSim.Proofs.Truncation
import HdlSim.Proofs.Nesting
import HdlSim.Proofs.Composition
import HdlSim.Proofs.Code
import HdlSim.Proofs.LineTokens
import HdlSim.Proofs.Items
import HdlSim.Proofs.ModelTokens
import HdlSim.Proofs.ModelItems
import HdlSim.Proofs.Declarations
import HdlSim.Proofs.References
import HdlSim.Proofs.ModelReferences
import HdlSim.Proofs.Identifiers
import HdlSim.Proofs.Refusal
import HdlSim.Proofs.Locals
import HdlSim.Proofs.Bindings
import HdlSim.Proofs.Hygiene
import HdlSim.Proofs.Interchange
import HdlSim.Proofs.Brackets
import HdlSim.Proofs.Indentation
import HdlSim.Proofs.Documentation
import HdlSim.Proofs.Interning
import HdlSim.Proofs.NameTables
import HdlSim.Proofs.RenamedSites
import HdlSim.Proofs.Renaming
import HdlSim.Proofs.Places
import HdlSim.Proofs.WrittenSignals
import HdlSim.Proofs.Rearrangement
import HdlSim.Proofs.TypeSpellings
import HdlSim.Proofs.HostTypes
import HdlSim.Proofs.Strings
import HdlSim.Proofs.ModelStrings
import HdlSim.Proofs.NameResolution
import HdlSim.Proofs.Levels
import HdlSim.Proofs.Sorting
import HdlSim.Proofs.Reporting
import HdlSim.Proofs.Shifting
