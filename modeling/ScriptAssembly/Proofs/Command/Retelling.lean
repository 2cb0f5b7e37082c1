import ScriptAssembly.Proofs.Command.Interleaving
import ScriptAssembly.Proofs.Command.Pipeline
import ScriptAssembly.Proofs.Machine.Identity

/-!
# Manifests and the projects that retell them

A manifest describes a session that a project can be told request by request.  Building the manifest
and building the project hand over the same, so they have the same result; only a compiler that
reads the configuration could tell them apart, because a build that scans saves what it found first.
-/

namespace ScriptAssembly

namespace Manifest

/-- The configuration says what the manifest says, and nothing has been picked yet. -/
structure Configures (manifest : Manifest) (base : Path) (config : Config) : Prop where
  /-- The sources have the manifest's extension. -/
  sourceExtension : config.sourceExtension =
    manifest.sourceExtension.getD Collector.defaultExtension
  /-- The binary goes where the manifest wants it. -/
  outputDirectory : config.outputDirectory = manifest.outputDirectory.getD base.text
  /-- The backend is the manifest's. -/
  defaultBackend : config.defaultBackend = manifest.backend
  /-- No compiler is configured. -/
  compilerPath : config.compilerPath = none
  /-- The session is empty. -/
  session : config.session = .empty

/-- The requests tell a session what the manifest says: its references and its folders in their
order, its output once, and its symbols if it has any. -/
structure RetoldBy (manifest : Manifest) (requests : List Request) : Prop where
  /-- The requests pick and set, and nothing else. -/
  picks : ∀ request ∈ requests, request.picks
  /-- The references come in their order. -/
  references : requests.filterMap Request.reference? = manifest.references
  /-- The folders come in their order. -/
  folders : requests.filterMap Request.folder? = manifest.folders
  /-- The output is set once. -/
  output : requests.filterMap Request.output? =
    [(some manifest.outputName, some manifest.executable)]
  /-- The symbols are set once; they need not be set if there are none. -/
  symbols : requests.filterMap Request.symbols? = manifest.symbols.toList ∨
    requests.filterMap Request.symbols? = [manifest.symbols.getD ""]

variable {manifest : Manifest} {m : Machine} {base : Path} {config : Config}
  {requests : List Request}

theorem parse_symbols (manifest : Manifest) :
    SymbolSet.parse (manifest.symbols.getD "") =
      (manifest.symbols.map SymbolSet.parse).getD .empty := by
  cases manifest.symbols with
  | none => rfl
  | some symbols => rfl

/-- The requests that follow the manifest as it makes its own session. -/
def retelling (manifest : Manifest) : List Request :=
  [.setOutput "" (some manifest.outputName) (some manifest.executable),
    .setSymbols "" (manifest.symbols.getD "")] ++
  manifest.references.map (Request.addReference "") ++ manifest.folders.map (Request.addFolder "")

theorem picking_retelling (manifest : Manifest) (m : Machine) (base : Path) :
    Session.empty.picking m ⟨base⟩ manifest.collector manifest.retelling =
      manifest.toSession m base := by
  simp only [Session.picking, retelling, List.foldl_append, List.foldl_map, List.foldl_cons,
    List.foldl_nil, Request.operation, parse_symbols]
  rfl

theorem filterMap_retelling {α : Type} (read : Request → Option α) (manifest : Manifest) :
    manifest.retelling.filterMap read =
      (read (.setOutput "" (some manifest.outputName) (some manifest.executable))).toList ++
      (read (.setSymbols "" (manifest.symbols.getD ""))).toList ++
      manifest.references.filterMap (fun path => read (.addReference "" path)) ++
      manifest.folders.filterMap (fun path => read (.addFolder "" path)) := by
  have hpair : ∀ first second, [first, second].filterMap read =
      (read first).toList ++ (read second).toList := by
    intro first second
    cases hfirst : read first <;> cases hsecond : read second <;> simp [hfirst, hsecond]
  rw [retelling, List.filterMap_append, List.filterMap_append, hpair, List.filterMap_map,
    List.filterMap_map]
  rfl

theorem retoldBy_retelling (manifest : Manifest) : manifest.RetoldBy manifest.retelling where
  picks request hmem := by
    simp only [retelling, List.mem_append, List.mem_cons, List.not_mem_nil, or_false,
      List.mem_map] at hmem
    rcases hmem with ((rfl | rfl) | ⟨path, -, rfl⟩) | ⟨path, -, rfl⟩ <;> rfl
  references := by simp [filterMap_retelling, Request.reference?]
  folders := by simp [filterMap_retelling, Request.folder?]
  output := by simp [filterMap_retelling, Request.output?]
  symbols := .inr (by simp [filterMap_retelling, Request.symbols?])

theorem symbols_picking_of_retoldBy (hretold : manifest.RetoldBy requests) (layout : Layout)
    (c : Collector) : (Session.empty.picking m layout c requests).symbols =
      SymbolSet.parse (manifest.symbols.getD "") := by
  rw [symbols_picking hretold.picks]
  rcases hretold.symbols with hsymbols | hsymbols
  · rw [hsymbols]
    cases manifest.symbols with
    | none => rfl
    | some symbols => rfl
  · rw [hsymbols]
    rfl

/-- However its requests are interleaved, a session that retells the manifest is the manifest's. -/
theorem picking_of_retoldBy (hretold : manifest.RetoldBy requests) (m : Machine) (base : Path) :
    Session.empty.picking m ⟨base⟩ manifest.collector requests = manifest.toSession m base := by
  have hcanonical := manifest.retoldBy_retelling
  rw [← picking_retelling]
  refine picking_congr hretold.picks hcanonical.picks ?_ ?_ ?_ ?_
  · rw [hretold.references, hcanonical.references]
  · rw [hretold.folders, hcanonical.folders]
  · rw [hretold.output, hcanonical.output]
  · rw [symbols_picking_of_retoldBy hretold, symbols_picking_of_retoldBy hcanonical]

/-- What a manifest's session holds stays the same while files are written anew. -/
theorem toSession_congr {other : Machine} (halike : m.Alike other) (manifest : Manifest)
    (base : Path) : manifest.toSession other base = manifest.toSession m base := by
  have hidentity : other.identity = m.identity := funext halike.identity
  have hcollect : manifest.collector.collect other = manifest.collector.collect m :=
    funext (halike.collect manifest.collector)
  simp only [toSession, Session.addReference, Session.addFolder, hidentity, hcollect]

namespace Configures

variable (hconfigures : manifest.Configures base config)

include hconfigures

theorem collector : Collector.ofExtension config.sourceExtension = manifest.collector := by
  rw [hconfigures.sourceExtension]
  rfl

theorem name (asked : Option String) : Config.backendName asked (some config) =
    (asked <|> manifest.backend).getD Backend.defaultName := by
  rw [Config.backendName, Option.bind_some, hconfigures.defaultBackend]

theorem directory (hbase : base.isAbsolute) (session : Session) :
    (Project.mk ⟨base⟩ (config.withSession session)).outputDirectory =
      manifest.outputDirectoryFrom base := by
  have hdirectory : (config.withSession session).outputDirectory =
      manifest.outputDirectory.getD base.text := hconfigures.outputDirectory
  rw [Project.outputDirectory, hdirectory, outputDirectoryFrom]
  cases manifest.outputDirectory with
  | none => exact Path.join_of_isAbsolute base hbase
  | some directory => rfl

/-- The project is handed to the manifest's backend and has its binary where the manifest wants
it. -/
theorem handover (hbase : base.isAbsolute) (spawn : Spawn) (asked : Option String)
    (session : Session) :
    (Project.mk ⟨base⟩ (config.withSession session)).handover spawn asked =
      (Command.selectBackend (Backend.all spawn none)
        ((asked <|> manifest.backend).getD Backend.defaultName)).map fun backend =>
        ⟨⟨base⟩, backend, session, manifest.outputDirectoryFrom base⟩ := by
  have hname : Config.backendName asked (some (config.withSession session)) =
      (asked <|> manifest.backend).getD Backend.defaultName := hconfigures.name asked
  have hcompiler : (Project.mk ⟨base⟩ (config.withSession session)).compiler? = none := by
    have hpath : (config.withSession session).compilerPath = none := hconfigures.compilerPath
    rw [Project.compiler?, hpath]
    rfl
  simp only [Project.handover, hname, hcompiler, hconfigures.directory hbase session]
  rfl

end Configures

end Manifest

end ScriptAssembly
