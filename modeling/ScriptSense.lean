import ScriptSense.Main
import ScriptSense.Proofs.CommandLine.Format
import ScriptSense.Proofs.CommandLine.Naming
import ScriptSense.Proofs.CommandLine.Query
import ScriptSense.Proofs.CommandLine.Verdict
import ScriptSense.Proofs.Diagnostic.Declaring
import ScriptSense.Proofs.Diagnostic.Masking
import ScriptSense.Proofs.Diagnostic.Separators
import ScriptSense.Proofs.Diagnostic.Terminators
import ScriptSense.Proofs.Symbol.Decoration
import ScriptSense.Proofs.Text.Pairing
import ScriptSense.Proofs.Wire.Defaults
import ScriptSense.Proofs.Workspace.Description
import ScriptSense.Proofs.Workspace.Endings
import ScriptSense.Proofs.Workspace.Enumeration
import ScriptSense.Proofs.Workspace.Reindentation
