import ScriptAssembly.Build.Descriptor
import ScriptAssembly.Collect
import ScriptAssembly.Scan.Source

/-!
# Build sessions

A session is all that has been picked for a build: references, folders, sources, symbols, and the
name and kind of the binary.  Every operation makes a new session.  Paths are kept in the form that
identifies what they lead to on the machine at the time of the operation.
-/

namespace ScriptAssembly

/-- A source that could not be read. -/
structure ScanError where
  /-- The source. -/
  path : Path
  /-- What went wrong. -/
  cause : IoError
deriving DecidableEq, Repr

/-- The wording of a failed scan. -/
def ScanError.message (e : ScanError) : String :=
  s!"Failed to read source file {e.path.text}: {e.cause.message}"

namespace Machine

/-- The symbols of one source file. -/
def scanFile (m : Machine) (p : Path) : Except ScanError SymbolSet :=
  match m.readBytes p with
  | .ok content => .ok (Scan.scanContent content)
  | .error cause => .error ⟨p, cause⟩

/-- The symbols of source files together with those found before; the first file that cannot be read
fails the scan. -/
def scanFilesFrom (m : Machine) (found : SymbolSet) : List Path → Except ScanError SymbolSet
  | [] => .ok found
  | p :: rest =>
    match m.scanFile p with
    | .ok symbols => scanFilesFrom m (found.union symbols) rest
    | .error e => .error e

/-- The symbols of source files. -/
def scanFiles (m : Machine) (paths : List Path) : Except ScanError SymbolSet :=
  m.scanFilesFrom .empty paths

end Machine

/-- All that has been picked for a build. -/
structure Session where
  /-- Binaries to link against. -/
  references : PathSet
  /-- Folders whose sources were picked. -/
  folders : PathSet
  /-- Source files. -/
  sources : PathSet
  /-- Symbols to switch on. -/
  symbols : SymbolSet
  /-- The file name of the binary. -/
  outputName : String
  /-- The kind of binary. -/
  outputKind : OutputKind
deriving DecidableEq

namespace Session

/-- The name of the binary until one is chosen. -/
def defaultOutputName : String := "CompiledScripts.dll"

/-- The session in which nothing has been picked. -/
def empty : Session := ⟨.empty, .empty, .empty, .empty, defaultOutputName, .library⟩

instance : Inhabited Session := ⟨empty⟩

/-- A reference is picked. -/
def addReference (m : Machine) (p : Path) (s : Session) : Session :=
  { s with references := s.references.insert (m.identity p) }

/-- A reference is dropped. -/
def removeReference (m : Machine) (p : Path) (s : Session) : Session :=
  { s with references := s.references.erase (m.identity p) }

/-- A folder is picked with all sources below it, unless it was picked before. -/
def addFolder (m : Machine) (c : Collector) (folder : Path) (s : Session) : Session :=
  let folder := m.identity folder
  if s.folders.contains folder then s
  else { s with
    folders := s.folders.insert folder
    sources := s.sources.insertMany (c.collect m folder) }

/-- A folder is dropped; its sources stay. -/
def removeFolder (m : Machine) (folder : Path) (s : Session) : Session :=
  { s with folders := s.folders.erase (m.identity folder) }

/-- A source is picked. -/
def addSource (m : Machine) (p : Path) (s : Session) : Session :=
  { s with sources := s.sources.insert (m.identity p) }

/-- A source is dropped. -/
def removeSource (m : Machine) (p : Path) (s : Session) : Session :=
  { s with sources := s.sources.erase (m.identity p) }

/-- The symbols are replaced. -/
def withSymbols (symbols : SymbolSet) (s : Session) : Session := { s with symbols }

/-- The name of the binary is replaced. -/
def withOutputName (outputName : String) (s : Session) : Session := { s with outputName }

/-- The kind of binary is replaced. -/
def withOutputKind (outputKind : OutputKind) (s : Session) : Session := { s with outputKind }

/-- The symbols are replaced by those of the sources. -/
def rescan (m : Machine) (s : Session) : Except ScanError Session :=
  (m.scanFiles s.sources.toList).map fun symbols => s.withSymbols symbols

/-- Where the binary goes inside a directory. -/
def outputPath (s : Session) (directory : Path) : Path := directory.join ⟨s.outputName⟩

/-- The inputs of a compiler invocation that writes into a directory. -/
def descriptor (s : Session) (directory : Path) : Descriptor where
  outputPath := s.outputPath directory
  references := s.references.toList
  compilerOptions := s.symbols.defineFlag?
  sources := s.sources.toList
  kind := s.outputKind

/-- The persisted form. -/
def toJson (s : Session) : Json := .object [
  ("references", s.references.toJson),
  ("folders", s.folders.toJson),
  ("sources", s.sources.toJson),
  ("symbols", s.symbols.toJson),
  ("output_name", .string s.outputName),
  ("output_kind", s.outputKind.toJson)]

/-- The fields of the persisted form; each has the value it has in the empty session. -/
def record : Json.Record Session :=
  Json.Record.start Session.mk
    |>.defaulted "references" PathSet.decode .empty
    |>.defaulted "folders" PathSet.decode .empty
    |>.defaulted "sources" PathSet.decode .empty
    |>.defaulted "symbols" SymbolSet.decode .empty
    |>.defaulted "output_name" Json.Decoder.string defaultOutputName
    |>.defaulted "output_kind" OutputKind.decode .library

/-- Reads the persisted form. -/
def decode : Json.Decoder Session := record.decode "struct BuildSession"

end Session

end ScriptAssembly
