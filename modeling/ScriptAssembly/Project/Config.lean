import ScriptAssembly.Build.Compiler
import ScriptAssembly.Project.Layout
import ScriptAssembly.Session

/-!
# Project configurations

What a project remembers between commands: its name, its settings and its session.
-/

namespace ScriptAssembly

/-- What a project remembers. -/
structure Config where
  /-- The name of the project. -/
  name : String
  /-- Notes on the project. -/
  description : Option String
  /-- The version of the format the configuration was made in. -/
  configVersion : String
  /-- The extension of sources, without a dot. -/
  sourceExtension : String
  /-- The directory that receives the binary, relative to the root or absolute. -/
  outputDirectory : String
  /-- The backend used where none is chosen. -/
  defaultBackend : Option String
  /-- The compiler to run. -/
  compilerPath : Option String
  /-- What has been picked for a build. -/
  session : Session
deriving DecidableEq

namespace Config

/-- The version of the format that new configurations are made in. -/
def formatVersion : String := "0.1.0"

/-- The directory that receives the binary where none is chosen. -/
def defaultOutputDirectory : String := "Assets"

/-- The configuration of a new project. -/
def new (name : String) : Config where
  name
  description := none
  configVersion := formatVersion
  sourceExtension := Collector.defaultExtension
  outputDirectory := defaultOutputDirectory
  defaultBackend := none
  compilerPath := none
  session := .empty

/-- The session is replaced. -/
def withSession (session : Session) (c : Config) : Config := { c with session }

/-- The persisted form: an unset backend or compiler is left out. -/
def toJson (c : Config) : Json := .object <|
  [("name", .string c.name),
    ("description", Json.ofOption .string c.description),
    ("config_version", .string c.configVersion),
    ("source_extension", .string c.sourceExtension),
    ("output_dir", .string c.outputDirectory)] ++
  Json.optionalMember "default_backend" .string c.defaultBackend ++
  Json.optionalMember "compiler_path" .string c.compilerPath ++
  [("session", c.session.toJson)]

/-- The fields of the persisted form. -/
def record : Json.Record Config :=
  let optionalString := Json.Decoder.option Json.Decoder.string
  Json.Record.start Config.mk
    |>.required "name" Json.Decoder.string
    |>.defaulted "description" optionalString none
    |>.required "config_version" Json.Decoder.string
    |>.defaulted "source_extension" Json.Decoder.string Collector.defaultExtension
    |>.defaulted "output_dir" Json.Decoder.string defaultOutputDirectory
    |>.defaulted "default_backend" optionalString none
    |>.defaulted "compiler_path" optionalString none
    |>.defaulted "session" Session.decode .empty

/-- Reads the persisted form. -/
def decode : Json.Decoder Config := record.decode "struct ProjectConfig"

/-- The backend to use: the one asked for, else the configured one, else the usual one. -/
def backendName (asked : Option String) (config : Option Config) : String :=
  (asked <|> config.bind Config.defaultBackend).getD Backend.defaultName

end Config

end ScriptAssembly
