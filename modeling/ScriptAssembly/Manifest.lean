import ScriptAssembly.Session

/-!
# Build manifests

A manifest describes one build from scratch: folders, references, the binary and how it is built.
Its paths are relative to the directory it stands in.
-/

namespace ScriptAssembly

/-- The description of one build. -/
structure Manifest where
  /-- The file name of the binary. -/
  outputName : String
  /-- The directory that receives the binary; the manifest's own if none is given. -/
  outputDirectory : Option String
  /-- Binaries to link against. -/
  references : List String
  /-- Folders whose sources are built. -/
  folders : List String
  /-- The symbols to use where the sources are not scanned, as a delimited text. -/
  symbols : Option String
  /-- The binary is a program. -/
  executable : Bool
  /-- The sources are scanned for symbols. -/
  scan : Bool
  /-- The backend to use. -/
  backend : Option String
  /-- The extension of sources. -/
  sourceExtension : Option String
deriving DecidableEq, Repr

namespace Manifest

/-- The manifest in which nothing is given. -/
def empty : Manifest := ⟨Session.defaultOutputName, none, [], [], none, false, true, none, none⟩

/-- What makes a manifest unfit to build. -/
inductive Flaw where
  /-- The name of the binary is blank. -/
  | blankOutputName
  /-- No folder is listed. -/
  | noFolder
deriving DecidableEq, Repr

/-- The wording of a flaw. -/
def Flaw.message : Flaw → String
  | .blankOutputName => "Manifest output_name is required"
  | .noFolder => "Manifest must list at least one folder"

/-- The first flaw of a manifest. -/
def flaw? (manifest : Manifest) : Option Flaw :=
  if Text.trim manifest.outputName.toList = [] then some .blankOutputName
  else if manifest.folders.isEmpty then some .noFolder
  else none

/-- The collector of the manifest's sources. -/
def collector (manifest : Manifest) : Collector :=
  .ofExtension (manifest.sourceExtension.getD Collector.defaultExtension)

/-- The session that the manifest describes, its paths read from `base`. -/
def toSession (manifest : Manifest) (m : Machine) (base : Path) : Session :=
  let start := Session.empty
    |>.withOutputName manifest.outputName
    |>.withOutputKind (.ofFlag manifest.executable)
    |>.withSymbols ((manifest.symbols.map SymbolSet.parse).getD .empty)
  let referenced := manifest.references.foldl
    (fun s reference => s.addReference m (base.join ⟨reference⟩)) start
  manifest.folders.foldl
    (fun s folder => s.addFolder m manifest.collector (base.join ⟨folder⟩)) referenced

/-- The directory that receives the binary, read from `base`. -/
def outputDirectoryFrom (manifest : Manifest) (base : Path) : Path :=
  match manifest.outputDirectory with
  | some directory => base.join ⟨directory⟩
  | none => base

/-- The persisted form. -/
def toJson (manifest : Manifest) : Json := .object [
  ("output_name", .string manifest.outputName),
  ("output_dir", Json.ofOption .string manifest.outputDirectory),
  ("references", .array (manifest.references.map .string)),
  ("folders", .array (manifest.folders.map .string)),
  ("symbols", Json.ofOption .string manifest.symbols),
  ("executable", .bool manifest.executable),
  ("scan", .bool manifest.scan),
  ("backend", Json.ofOption .string manifest.backend),
  ("source_extension", Json.ofOption .string manifest.sourceExtension)]

/-- The fields of the persisted form; each has the value it has in the empty manifest. -/
def record : Json.Record Manifest :=
  let strings := Json.Decoder.list Json.Decoder.string
  let optionalString := Json.Decoder.option Json.Decoder.string
  Json.Record.start Manifest.mk
    |>.defaulted "output_name" Json.Decoder.string Session.defaultOutputName
    |>.defaulted "output_dir" optionalString none
    |>.defaulted "references" strings []
    |>.defaulted "folders" strings []
    |>.defaulted "symbols" optionalString none
    |>.defaulted "executable" Json.Decoder.bool false
    |>.defaulted "scan" Json.Decoder.bool true
    |>.defaulted "backend" optionalString none
    |>.defaulted "source_extension" optionalString none

/-- Reads the persisted form. -/
def decode : Json.Decoder Manifest := record.decode "struct BuildManifest"

end Manifest

end ScriptAssembly
