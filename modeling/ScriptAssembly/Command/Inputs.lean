import ScriptAssembly.Project.Store

/-!
# Commands on the inputs of a project

Each command loads the project, applies one operation to its session and saves it.  A command that
fails before it saves leaves the project as it was.
-/

namespace ScriptAssembly.Command

/-- The project at the root that a user names. -/
def openProject (root : String) : Command Project := do
  check id (Project.openAt (← machine) root)

/-- Saves a project. -/
def save (p : Project) : Command Unit := onMachine id p.save

/-- Loads a project, updates its session and saves it; the project as it was comes first. -/
def updateProject (root : String)
    (update : Machine → Project → Session → Except CommandError Session) :
    Command (Project × Project) := do
  let project ← openProject root
  let session ← check id (update (← machine) project project.config.session)
  let updated := project.withSession session
  save updated
  return (project, updated)

/-- Loads a project, updates its session and saves it. -/
def updateSession (root : String)
    (update : Machine → Project → Session → Except CommandError Session) : Command Project :=
  return (← updateProject root update).2

/-- A path that must lead to a file, read from the root of a project. -/
def existingFile (m : Machine) (project : Project) (missing : Path → CommandError) (path : String) :
    Except CommandError Path :=
  let resolved := project.layout.resolve ⟨path⟩
  if m.isFile resolved then .ok resolved else .error (missing resolved)

/-- Picks a reference. -/
def addReference (root path : String) : Command Unit := do
  let project ← updateSession root fun m project session =>
    (existingFile m project .missingReference path).map fun p => session.addReference m p
  let references := project.config.session.references
  printLine s!"References ({references.size}):"
  printLines (references.toList.map fun p => "  - " ++ project.layout.display p)

/-- Drops a reference. -/
def removeReference (root path : String) : Command Unit := do
  let project ← updateSession root fun m project session =>
    .ok (session.removeReference m (project.layout.resolve ⟨path⟩))
  printLine s!"References remaining: {project.config.session.references.size}"

/-- Picks a folder with its sources. -/
def addFolder (root path : String) : Command Unit := do
  let (before, after) ← updateProject root fun m project session =>
    .ok (session.addFolder m project.collector (project.layout.resolve ⟨path⟩))
  let known := before.config.session.sources.size
  let total := after.config.session.sources.size
  printLine s!"Added folder: {path}"
  printLine s!"  New sources: {total - known}"
  printLine s!"  Total sources: {total}"

/-- Drops a folder; its sources stay. -/
def removeFolder (root path : String) : Command Unit := do
  let project ← updateSession root fun m project session =>
    .ok (session.removeFolder m (project.layout.resolve ⟨path⟩))
  printLine s!"Folders remaining: {project.config.session.folders.size}"

/-- Picks a source. -/
def addSource (root path : String) : Command Unit := do
  let project ← updateSession root fun m project session =>
    (existingFile m project .missingSource path).map fun p => session.addSource m p
  printLine s!"Total sources: {project.config.session.sources.size}"

/-- Drops a source. -/
def removeSource (root path : String) : Command Unit := do
  let project ← updateSession root fun m project session =>
    .ok (session.removeSource m (project.layout.resolve ⟨path⟩))
  printLine s!"Sources remaining: {project.config.session.sources.size}"

/-- Replaces the symbols by those of a delimited text. -/
def setSymbols (root symbols : String) : Command Unit := do
  let project ← updateSession root fun _ _ session =>
    .ok (session.withSymbols (.parse symbols))
  printLine s!"Symbols: {project.config.session.symbols.toDelimited}"

/-- Replaces the name of the binary unless the new one is blank. -/
def rename (name : Option String) (session : Session) : Except CommandError Session :=
  match name with
  | none => .ok session
  | some name =>
    if Text.trim name.toList = [] then .error .blankOutputName
    else .ok (session.withOutputName name)

/-- Replaces the kind of binary. -/
def rekind (executable : Option Bool) (session : Session) : Session :=
  match executable with
  | none => session
  | some executable => session.withOutputKind (.ofFlag executable)

/-- Replaces the name and the kind of the binary, as far as they are given. -/
def setOutput (root : String) (name : Option String) (executable : Option Bool) :
    Command Unit := do
  let project ← updateSession root fun _ _ session =>
    (rename name session).map (rekind executable)
  let session := project.config.session
  let output := session.outputPath project.outputDirectory
  printLine s!"Output: {output.text} ({session.outputKind.title})"

/-- The symbols as a listing shows them. -/
def shownSymbols (symbols : SymbolSet) : String :=
  if symbols.toDelimited.isEmpty then "(none)" else symbols.toDelimited

/-- The lines of a listing. -/
def listing (label : String) (entries : List String) : List String :=
  s!"{label} ({entries.length}):" ::
    if entries.isEmpty then ["  (none)"] else entries.map ("  - " ++ ·)

/-- Lists all inputs. -/
def listInputs (root : String) (json : Bool) : Command Unit := do
  let project ← openProject root
  let session := project.config.session
  let shown := fun (paths : PathSet) => paths.toList.map project.layout.display
  if json then
    let strings := fun (paths : PathSet) => Json.array ((shown paths).map .string)
    printJson <| .object [
      ("references", strings session.references),
      ("folders", strings session.folders),
      ("sources", strings session.sources),
      ("symbols", .string session.symbols.toDelimited),
      ("output_name", .string session.outputName),
      ("output_kind", session.outputKind.toJson)]
  else
    printLines (listing "References" (shown session.references))
    printLines (listing "Folders" (shown session.folders))
    printLines (listing "Sources" (shown session.sources))
    printLine s!"Symbols: {shownSymbols session.symbols}"
    printLine s!"Output: {session.outputName} ({session.outputKind.title})"

end ScriptAssembly.Command
