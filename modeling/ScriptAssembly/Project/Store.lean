import ScriptAssembly.Command.World
import ScriptAssembly.Project.Config

/-!
# Loading and saving projects

A project is its layout and the configuration read from it.
-/

namespace ScriptAssembly

/-- A project: where it is and what it remembers. -/
structure Project where
  /-- Its paths. -/
  layout : Layout
  /-- Its configuration. -/
  config : Config

namespace Project

/-- The project at a root. -/
def load (m : Machine) (root : Path) : Except CommandError Project :=
  let layout := Layout.mk root
  match m.readText layout.configPath with
  | .error cause => .error (.readConfig layout.configPath cause)
  | .ok text =>
    match Json.decodeText Config.decode text with
    | .error cause => .error (.parseConfig cause)
    | .ok config => .ok ⟨layout, config⟩

/-- The project at the root that a user names. -/
def openAt (m : Machine) (root : String) : Except CommandError Project :=
  match m.namedRoot root with
  | .error cause => .error (.workingDirectory cause)
  | .ok path => load m path

/-- Writes the configuration, making the directory for it. -/
def save (p : Project) : ExceptT CommandError (StateM Machine) Unit := do
  let (machine, made) := (← getThe Machine).makeDirectories p.layout.metaDirectory
  set machine
  match made with
  | .error cause => throw (.makeMetaDirectory p.layout.metaDirectory cause)
  | .ok () =>
    match machine.writeFile p.layout.configPath p.config.toJson.pretty.toUTF8 with
    | .error cause => throw (.writeConfig p.layout.configPath cause)
    | .ok machine => set machine

/-- The project with another session. -/
def withSession (p : Project) (session : Session) : Project :=
  { p with config := p.config.withSession session }

/-- The directory that receives the binary. -/
def outputDirectory (p : Project) : Path := p.layout.resolve ⟨p.config.outputDirectory⟩

/-- The collector of the project's sources. -/
def collector (p : Project) : Collector := .ofExtension p.config.sourceExtension

/-- The compiler that is configured. -/
def compiler? (p : Project) : Option Path :=
  p.config.compilerPath.map fun path => p.layout.resolve ⟨path⟩

/-- The backends there are for the project. -/
def backends (p : Project) (host : Host) : List (Backend (StateM Machine)) :=
  Backend.all host.spawn p.compiler?

end Project

end ScriptAssembly
