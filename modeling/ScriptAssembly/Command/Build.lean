import ScriptAssembly.Command.Inputs

/-!
# The build command

A build scans the sources unless told not to, saves the symbols it found, and hands the session to a
backend.  The session is taken out of the project while it is scanned, and the project is saved
before the backend runs.
-/

namespace ScriptAssembly

/-- A world with a project open in it. -/
structure Workbench where
  /-- The world. -/
  world : World
  /-- The project. -/
  project : Project

namespace Workbench

/-- The session of the open project is taken out; an empty one is left in its place. -/
def takeSession : ExceptT CommandError (StateM Workbench) Session := do
  let bench ← getThe Workbench
  set { bench with project := bench.project.withSession .empty }
  return bench.project.config.session

/-- A command that needs no project. -/
def command {α : Type} (action : Command α) : ExceptT CommandError (StateM Workbench) α := do
  let bench ← getThe Workbench
  let (result, world) := (action.run).run bench.world
  set { bench with world }
  match result with
  | .ok value => return value
  | .error e => throw e

/-- The symbols of the open project become those of its sources, and the project is saved. -/
def rescan : ExceptT CommandError (StateM Workbench) Unit := do
  let session ← takeSession
  match session.rescan (← getThe Workbench).world.machine with
  | .error e => throw (.scan e)
  | .ok rescanned =>
    modifyThe Workbench fun bench =>
      { bench with project := bench.project.withSession rescanned }
    command (Command.save (← getThe Workbench).project)

end Workbench

namespace Command

/-- The backend of a name. -/
def selectBackend (known : List (Backend (StateM Machine))) (name : String) :
    Except CommandError (Backend (StateM Machine)) :=
  match Backend.named? known name with
  | some backend => .ok backend
  | none => .error (.unknownBackend name (known.map Backend.name))

/-- Builds the open project: scanned first unless `skipScan` holds, and with the backend asked for,
if any. -/
def runBuild (host : Host) (asked : Option String) (skipScan : Bool) :
    ExceptT CommandError (StateM Workbench) BuildResult := do
  if !skipScan then Workbench.rescan
  let project := (← getThe Workbench).project
  let name := Config.backendName asked (some project.config)
  match selectBackend (project.backends host) name with
  | .error e => throw e
  | .ok backend =>
    let runner : Runner (StateM Machine) :=
      ⟨backend, Stamp.refresher project.layout.stampPath host.now⟩
    Workbench.command <|
      onMachine (fun e => .backend name (.backend e))
        (runner.run (project.config.session.descriptor project.outputDirectory))

/-- Prints the result of a build, paths below `root` without it; a failure fails the command. -/
def reportBuild (result : BuildResult) (json : Bool) (root : Path) : Command Unit := do
  if json then printJson result.toJson
  else
    match result with
    | .success output =>
      printLine s!"DLL compiled successfully: {(Layout.mk root).display output}"
    | .failure diagnostics =>
      printLine s!"Build failed ({diagnostics.length} diagnostic(s)):"
      printLines (diagnostics.map fun d => "  " ++ d.display)
  match result with
  | .success _ => pure ()
  | .failure diagnostics => throw (.buildFailed diagnostics.length)

/-- Builds a project. -/
def build (host : Host) (root : String) (backend : Option String) (skipScan json : Bool) :
    Command Unit := do
  let project ← openProject root
  let world ← getThe World
  let (result, bench) := ((runBuild host backend skipScan).run).run ⟨world, project⟩
  set bench.world
  match result with
  | .error e => throw e
  | .ok result => reportBuild result json project.layout.root

/-- What is said of the backend of a name. -/
def describeBackend (name : String) : String :=
  if name = "dry-run" then "Checks that every source and reference exists; writes nothing"
  else if name = "csc" then "C# compiler (csc or mcs; set DLL_FORGE_CSC or compiler_path)"
  else s!"Backend '{name}'"

/-- Lists the backends. -/
def listBackends (host : Host) (json : Bool) : Command Unit := do
  let names := (Backend.all host.spawn none).map Backend.name
  if json then
    printJson <| .array <| names.map fun name => .object [
      ("name", .string name),
      ("description", .string (describeBackend name)),
      ("is_default", .bool (name = Backend.defaultName))]
  else
    printLine "Backends:"
    printLines <| names.map fun name =>
      let marker := if name = Backend.defaultName then " (default)" else ""
      s!"- {name}{marker}: {describeBackend name}"

end Command

end ScriptAssembly
