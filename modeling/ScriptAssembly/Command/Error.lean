import ScriptAssembly.Build.Pipeline
import ScriptAssembly.Build.Stamp
import ScriptAssembly.Manifest

/-!
# Why a command failed

Every way in which a command can fail, and the reasons behind it from the outermost to the
innermost.
-/

namespace ScriptAssembly

/-- One reason in a chain of reasons. -/
inductive Reason where
  /-- A reason in words. -/
  | text (words : String)
  /-- A JSON text that is not the value it should be. -/
  | json (error : Json.DecodeError)
  /-- A YAML text that is not the value it should be. -/
  | yaml

/-- Why a command failed. -/
inductive CommandError where
  /-- There is no working directory. -/
  | workingDirectory (cause : IoError)
  /-- The configuration could not be read. -/
  | readConfig (path : Path) (cause : IoError)
  /-- The configuration is not one. -/
  | parseConfig (cause : Json.DecodeError)
  /-- The directory for the configuration could not be made. -/
  | makeMetaDirectory (path : Path) (cause : IoError)
  /-- The configuration could not be written. -/
  | writeConfig (path : Path) (cause : IoError)
  /-- There is a project already. -/
  | alreadyInitialized (config : Path)
  /-- A reference to be added is no file. -/
  | missingReference (path : Path)
  /-- A source to be added is no file. -/
  | missingSource (path : Path)
  /-- The chosen name of the binary is blank. -/
  | blankOutputName
  /-- The sources could not be scanned. -/
  | scan (cause : ScanError)
  /-- No backend has the name. -/
  | unknownBackend (name : String) (known : List String)
  /-- The build could not be run. -/
  | backend (name : String) (cause : PipelineError)
  /-- The build has failed with this many diagnostics. -/
  | buildFailed (diagnostics : Nat)
  /-- The manifest could not be read. -/
  | readManifest (path : Path) (cause : IoError)
  /-- The manifest is not the YAML text it should be. -/
  | parseYamlManifest (path : Path)
  /-- The manifest is not the JSON text it should be. -/
  | parseJsonManifest (path : Path) (cause : Json.DecodeError)
  /-- The name of the manifest tells no format. -/
  | unsupportedManifest (path : Path)
  /-- The manifest is unfit to build. -/
  | flawedManifest (flaw : Manifest.Flaw)

namespace PipelineError

/-- The reasons, outermost first. -/
def reasons : PipelineError → List Reason
  | .scan cause => [.text cause.message, .text cause.cause.message]
  | .backend cause => [.text cause.message]

end PipelineError

namespace CommandError

/-- The reasons, outermost first. -/
def reasons : CommandError → List Reason
  | .workingDirectory cause => [.text "Failed to get current directory", .text cause.message]
  | .readConfig path cause =>
    [.text s!"Failed to read project config at {path.text}", .text cause.message]
  | .parseConfig cause => [.text "Failed to parse project config JSON", .json cause]
  | .makeMetaDirectory path cause =>
    [.text s!"Failed to create meta dir: {path.text}", .text cause.message]
  | .writeConfig path cause =>
    [.text s!"Failed to write project config: {path.text}", .text cause.message]
  | .alreadyInitialized config => [.text s!"Project already initialized at {config.text}"]
  | .missingReference path => [.text s!"Reference binary does not exist: {path.text}"]
  | .missingSource path => [.text s!"Source file does not exist: {path.text}"]
  | .blankOutputName => [.text "Output name must not be empty"]
  | .scan cause => .text "Failed to scan sources" :: PipelineError.reasons (.scan cause)
  | .unknownBackend name known =>
    let names := ", ".intercalate known
    [.text s!"Unknown backend '{name}'. Available: {names}"]
  | .backend name cause => .text s!"Backend '{name}' failed" :: cause.reasons
  | .buildFailed diagnostics => [.text s!"Build failed with {diagnostics} diagnostic(s)"]
  | .readManifest path cause =>
    [.text s!"Failed to read manifest {path.text}", .text cause.message]
  | .parseYamlManifest path => [.text s!"Failed to parse YAML manifest {path.text}", .yaml]
  | .parseJsonManifest path cause =>
    [.text s!"Failed to parse JSON manifest {path.text}", .json cause]
  | .unsupportedManifest path => [.text s!"Unsupported manifest format: {path.text}"]
  | .flawedManifest flaw => [.text flaw.message]

/-- The outermost reason in words. -/
def message (e : CommandError) : String :=
  match e.reasons with
  | .text words :: _ => words
  | _ => ""

end CommandError

end ScriptAssembly
