import ScriptAssembly.Command.Build
import ScriptAssembly.Manifest.Yaml

/-!
# Building from a manifest

A manifest is read in the format that its name tells, turned into a session and built without any
project.
-/

namespace ScriptAssembly

namespace Manifest

/-- The manifest in a text, in the format that the extension of its path tells. -/
def ofText (p : Path) (text : String) : Except CommandError Manifest :=
  match p.extension? with
  | some "yaml" | some "yml" =>
    match ofYaml? text with
    | some manifest => .ok manifest
    | none => .error (.parseYamlManifest p)
  | some "json" =>
    match Json.decodeText decode text with
    | .ok manifest => .ok manifest
    | .error cause => .error (.parseJsonManifest p cause)
  | _ => .error (.unsupportedManifest p)

/-- Reads a manifest that is fit to build. -/
def load (m : Machine) (p : Path) : Except CommandError Manifest := do
  match m.readText p with
  | .error cause => throw (.readManifest p cause)
  | .ok text =>
    let manifest ← ofText p text
    match manifest.flaw? with
    | some flaw => throw (.flawedManifest flaw)
    | none => return manifest

end Manifest

namespace Command

/-- Builds what a manifest describes. -/
def buildManifest (host : Host) (path : String) (asked : Option String) (json : Bool) :
    Command Unit := do
  let m ← machine
  let p := m.identity ⟨path⟩
  let manifest ← check id (Manifest.load m p)
  let base := p.parent?.getD ⟨""⟩
  let name := (asked <|> manifest.backend).getD Backend.defaultName
  let backend ← check id (selectBackend (Backend.all host.spawn none) name)
  let runner : Runner (StateM Machine) :=
    ⟨backend, Stamp.refresher (Layout.mk base).stampPath host.now⟩
  let scan := if manifest.scan then some (Session.rescan m) else none
  let (session, result) ← onMachine (.backend name)
    (scanAndBuild scan runner (manifest.outputDirectoryFrom base) (manifest.toSession m base))
  if !json then
    printLine s!"Sources: {session.sources.size}"
    printLine s!"Symbols: {session.symbols.toDelimited}"
  reportBuild result json base

end Command

end ScriptAssembly
