import ScriptAssembly.CommandLine
import ScriptAssembly.Proofs.Json.Leaf
import ScriptAssembly.Proofs.Json.Reading
import ScriptAssembly.Proofs.Json.Record
import ScriptAssembly.Proofs.Persistence
import ScriptAssembly.Proofs.Machine.Disk
import ScriptAssembly.Proofs.Machine.Lookup
import ScriptAssembly.Proofs.Machine.Files
import ScriptAssembly.Proofs.Command.Effect
import ScriptAssembly.Proofs.Command.Failure
import ScriptAssembly.Proofs.Command.History
import ScriptAssembly.Proofs.Diagnostic.Mark
import ScriptAssembly.Proofs.Diagnostic.Display
import ScriptAssembly.Proofs.Scan.Lines
import ScriptAssembly.Proofs.Machine.Shape
import ScriptAssembly.Proofs.Build.Stamp
import ScriptAssembly.Proofs.Command.Handover
import ScriptAssembly.Proofs.Scan.Names
import ScriptAssembly.Proofs.Command.ScanThenBuild
import ScriptAssembly.Proofs.Build.Unread
import ScriptAssembly.Proofs.Command.Pipeline
import ScriptAssembly.Proofs.Command.Interleaving
import ScriptAssembly.Proofs.Command.Retelling
import ScriptAssembly.Proofs.Command.ManifestBuild
import ScriptAssembly.Proofs.Build.Verdict
import ScriptAssembly.Proofs.Machine.Identity
import ScriptAssembly.Proofs.Session
import ScriptAssembly.Proofs.Project.Stamp
import ScriptAssembly.Proofs.Command.Stamping
import ScriptAssembly.Proofs.Machine.Spelling
import ScriptAssembly.Proofs.Session.Order
import ScriptAssembly.Proofs.Command.Standpoint
import ScriptAssembly.Proofs.Command.Workbench
import ScriptAssembly.Proofs.Project.OwnFiles
import ScriptAssembly.Proofs.Command.Frame
import ScriptAssembly.Proofs.Text.Search
import ScriptAssembly.Proofs.Scan.Words
import ScriptAssembly.Proofs.Scan.Blanks
import ScriptAssembly.Proofs.Text.Utf8
import ScriptAssembly.Proofs.Scan.Meaning
import ScriptAssembly.Proofs.Scan.Locality
import ScriptAssembly.Proofs.Scan.Literal
import ScriptAssembly.Proofs.Session.Rescan
import ScriptAssembly.Proofs.Symbols
import ScriptAssembly.Proofs.Diagnostic.Place
import ScriptAssembly.Proofs.Diagnostic.Grammar
import ScriptAssembly.Proofs.Diagnostic.Redisplay
import ScriptAssembly.Proofs.Diagnostic.Output
import ScriptAssembly.Proofs.Diagnostic.FileName
import ScriptAssembly.Proofs.Collect.Listing
import ScriptAssembly.Proofs.Collect.Walk
import ScriptAssembly.Proofs.Path.Set
import ScriptAssembly.Proofs.Path.Components
import ScriptAssembly.Proofs.Symbols.Canonical
import ScriptAssembly.Proofs.Collect.Identity
import ScriptAssembly.Proofs.Machine.Deletion
import ScriptAssembly.Proofs.Command.Removal
import ScriptAssembly.Proofs.Build.Arguments
import ScriptAssembly.Proofs.Project.Display
import ScriptAssembly.Proofs.Session.Folder
import ScriptAssembly.Proofs.Machine.Absence
import ScriptAssembly.Proofs.Command.DryRun
import ScriptAssembly.Proofs.Build.Precedence
import ScriptAssembly.Proofs.Machine.NormalForm
