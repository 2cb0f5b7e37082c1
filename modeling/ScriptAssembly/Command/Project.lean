import ScriptAssembly.Command.Inputs

/-!
# Commands on whole projects

A project is started, described and scanned.
-/

namespace ScriptAssembly.Command

/-- Starts a project; the facade library in its root becomes its first reference. -/
def initProject (root : String) (name : Option String) : Command Unit := do
  let path ← check .workingDirectory ((← machine).namedRoot root)
  let layout := Layout.mk path
  let m ← machine
  if m.hasEntry layout.configPath then throw (.alreadyInitialized layout.configPath)
  let session :=
    match m.netstandard? path with
    | some library => Session.empty.addReference m library
    | none => Session.empty
  let config := (Config.new (name.getD path.projectName)).withSession session
  let project := Project.mk layout config
  save project
  printLine "Initialized dll-forge project:"
  printLine s!"  Name: {config.name}"
  printLine s!"  Root: {layout.root.text}"
  printLine s!"  Config: {layout.configPath.text}"
  printLine s!"  Output dir: {project.outputDirectory.text}"
  printLine s!"  References: {config.session.references.size}"

/-- Whether a directory is there. -/
def directoryStatus (m : Machine) (label : String) (p : Path) : String :=
  let status := if m.isDirectory p then "OK" else "MISSING"
  s!"- {label}: {status} ({p.text})"

/-- Describes a project. -/
def projectInfo (root : String) (json : Bool) : Command Unit := do
  let project ← openProject root
  let config := project.config
  let session := config.session
  let layout := project.layout
  if json then
    printJson <| .object [
      ("name", .string config.name),
      ("root", .string layout.root.text),
      ("config_file", .string layout.configPath.text),
      ("config_version", .string config.configVersion),
      ("source_extension", .string config.sourceExtension),
      ("output_dir", .string project.outputDirectory.text),
      ("output_name", .string session.outputName),
      ("default_backend", Json.ofOption .string config.defaultBackend),
      ("compiler_path", Json.ofOption .string config.compilerPath),
      ("references", .ofNat session.references.size),
      ("folders", .ofNat session.folders.size),
      ("sources", .ofNat session.sources.size),
      ("symbols", .string session.symbols.toDelimited)]
  else
    let backend := config.defaultBackend.getD "(none)"
    printLine "dll-forge Project Info"
    printLine "======================"
    printLine s!"Name: {config.name}"
    printLine s!"Root: {layout.root.text}"
    printLine s!"Config file: {layout.configPath.text}"
    printLine s!"Config version: {config.configVersion}"
    printLine s!"Source extension: .{config.sourceExtension}"
    printLine s!"Output: {session.outputName} ({session.outputKind.title})"
    printLine s!"Default backend: {backend}"
    printLine <| s!"Inputs: {session.references.size} reference(s), " ++
      s!"{session.folders.size} folder(s), {session.sources.size} source(s)"
    printLine s!"Symbols: {shownSymbols session.symbols}"
    printLine ""
    printLine "Directories:"
    let m ← machine
    printLine (directoryStatus m "Meta dir (.dll-forge)" layout.metaDirectory)
    printLine (directoryStatus m "Output dir" project.outputDirectory)

/-- Replaces the symbols of a project by those of its sources. -/
def scan (root : String) (json : Bool) : Command Unit := do
  let project ← updateSession root fun m _ session =>
    match session.rescan m with
    | .ok rescanned => .ok rescanned
    | .error e => .error (.scan e)
  let session := project.config.session
  if json then
    printJson <| .object [
      ("sources", .ofNat session.sources.size),
      ("symbols", session.symbols.toJson),
      ("define", .string session.symbols.toDelimited)]
  else
    printLine s!"Scanned {session.sources.size} source(s)"
    printLine s!"Custom Scripting Define Symbols Detected: {session.symbols.toDelimited}"

end ScriptAssembly.Command
