import ScriptAssembly.Proofs.Build.Calls
import ScriptAssembly.Proofs.Command.Effect

/-!
# What a build hands to its backend

A build has two halves.  The first one settles which backend runs and on which session; it reads the
project or the manifest and never learns the time.  The second one is the same for projects and for
manifests: the backend runs, a new binary is made known, and the result is told.  So two builds that
hand over the same on one machine leave the same behind.
-/

namespace ScriptAssembly

/-- What is handed to a backend, and where its binary and its stamp go. -/
structure Handover where
  /-- The paths of the project, or those that a manifest stands for. -/
  layout : Layout
  /-- The backend. -/
  backend : Backend (StateM Machine)
  /-- The session that is built. -/
  session : Session
  /-- The directory that receives the binary. -/
  directory : Path

namespace BuildResult

/-- What a result means for its command. -/
def verdict : BuildResult → Except CommandError Unit
  | .success _ => .ok ()
  | .failure diagnostics => .error (.buildFailed diagnostics.length)

/-- What is printed of a result, paths below `root` without it. -/
def shown (json : Bool) (root : Path) (result : BuildResult) : String :=
  if json then result.toJson.pretty ++ "\n"
  else
    match result with
    | .success output => s!"DLL compiled successfully: {(Layout.mk root).display output}" ++ "\n"
    | .failure diagnostics =>
      s!"Build failed ({diagnostics.length} diagnostic(s)):" ++ "\n" ++
        .join (diagnostics.map fun d => "  " ++ d.display ++ "\n")

end BuildResult

namespace Handover

/-- The inputs of the compiler. -/
def descriptor (handed : Handover) : Descriptor := handed.session.descriptor handed.directory

/-- The backend runs, and a stamp makes the binary known. -/
def run (now : String) (handed : Handover) : ExceptT BackendError (StateM Machine) BuildResult :=
  (Runner.mk handed.backend (Stamp.refresher handed.layout.stampPath now)).run handed.descriptor

/-- What a build leaves behind that has printed `before` and now hands over. -/
def report (now : String) (json : Bool) (before : String) (handed : Handover) (m : Machine) :
    Report :=
  match ((handed.run now).run).run m with
  | (.ok result, after) =>
    ⟨result.verdict, after, before ++ result.shown json handed.layout.root⟩
  | (.error e, after) => ⟨.error (.backend handed.backend.name (.backend e)), after, ""⟩

/-- What is printed of a manifest's session. -/
def heading (handed : Handover) : String :=
  s!"Sources: {handed.session.sources.size}" ++ "\n" ++
    s!"Symbols: {handed.session.symbols.toDelimited}" ++ "\n"

end Handover

/-- The project is handed to the backend asked for, or to the one it is configured with. -/
def Project.handover (spawn : Spawn) (asked : Option String) (project : Project) :
    Except CommandError Handover :=
  let name := Config.backendName asked (some project.config)
  (Command.selectBackend (Backend.all spawn project.compiler?) name).map fun backend =>
    ⟨project.layout, backend, project.config.session, project.outputDirectory⟩

/-- The project at a root is opened, scanned unless `skipScan` holds, and handed over. -/
def Effect.handover (spawn : Spawn) (root : String) (asked : Option String) (skipScan : Bool) :
    Effect Handover :=
  (openProject root).andThen fun project =>
    (ready skipScan project).andThen fun ready => ofCheck fun _ => ready.handover spawn asked

namespace Manifest

/-- The manifest in the directory `base` is turned into a session, which is scanned if the manifest
asks for it and handed over. -/
def handover (spawn : Spawn) (m : Machine) (base : Path) (asked : Option String)
    (manifest : Manifest) : Except CommandError Handover := do
  let name := (asked <|> manifest.backend).getD Backend.defaultName
  let backend ← Command.selectBackend (Backend.all spawn none) name
  let scan := if manifest.scan then some (Session.rescan m) else none
  let session ← ((manifest.toSession m base).scanned scan).mapError fun e =>
    .backend name (.scan e)
  return ⟨⟨base⟩, backend, session, manifest.outputDirectoryFrom base⟩

/-- The manifest at a path is loaded and handed over. -/
def handoverAt (spawn : Spawn) (path : String) (asked : Option String) (m : Machine) :
    Except CommandError Handover := do
  let p := m.identity ⟨path⟩
  let manifest ← load m p
  manifest.handover spawn m (p.parent?.getD ⟨""⟩) asked

end Manifest

section ScanAndBuild

variable {scan : Option (Session → Except ScanError Session)} {s scanned : Session} {m : Machine}

theorem scanAndBuild_of_scanned {runner : Runner (StateM Machine)} {directory : Path}
    {result : BuildResult} (hscan : s.scanned scan = .ok scanned)
    (hbuilt : (((runner.run (scanned.descriptor directory)).run).run m).1 = .ok result) :
    (((scanAndBuild scan runner directory s).run).run m).1 = .ok (scanned, result) := by
  rw [run_scanAndBuild_of_ok hscan]
  generalize ((runner.run (scanned.descriptor directory)).run).run m = built at hbuilt ⊢
  obtain ⟨ended, last⟩ := built
  cases hbuilt
  rfl

end ScanAndBuild

theorem Effect.compile_eq (host : Host) (asked : Option String) (project : Project) :
    compile host asked project =
      (ofCheck fun _ => project.handover host.spawn asked).andThen fun handed =>
        ofAction (fun e => .backend handed.backend.name (.backend e)) (handed.run host.now) := by
  funext m
  simp only [compile, Project.handover, Project.backends, andThen, ofCheck]
  cases hselect : Command.selectBackend (Backend.all host.spawn project.compiler?)
      (Config.backendName asked (some project.config)) with
  | error e => rfl
  | ok backend =>
      simp only [Except.map, Command.name_of_selectBackend hselect]
      rfl

/-- A project hands over itself with the backend that is selected. -/
theorem Project.handover_eq_ok_iff {spawn : Spawn} {asked : Option String} {project : Project}
    {handed : Handover} : project.handover spawn asked = .ok handed ↔
      ∃ backend, Command.selectBackend (Backend.all spawn project.compiler?)
          (Config.backendName asked (some project.config)) = .ok backend ∧
        ⟨project.layout, backend, project.config.session, project.outputDirectory⟩ = handed := by
  simp only [handover]
  cases Command.selectBackend (Backend.all spawn project.compiler?)
      (Config.backendName asked (some project.config)) with
  | error e => simp [Except.map]
  | ok backend => simp [Except.map]

theorem Project.of_handover {spawn : Spawn} {asked : Option String} {project : Project}
    {handed : Handover} (hhandover : project.handover spawn asked = .ok handed) :
    handed.layout = project.layout ∧ handed.session = project.config.session ∧
      handed.directory = project.outputDirectory := by
  obtain ⟨backend, -, rfl⟩ := handover_eq_ok_iff.mp hhandover
  exact ⟨rfl, rfl, rfl⟩

theorem Project.select_of_handover {spawn : Spawn} {asked : Option String} {project : Project}
    {handed : Handover} (hhandover : project.handover spawn asked = .ok handed) :
    Command.selectBackend (Backend.all spawn project.compiler?)
      (Config.backendName asked (some project.config)) = .ok handed.backend := by
  obtain ⟨backend, hselect, rfl⟩ := handover_eq_ok_iff.mp hhandover
  exact hselect

/-- A project is made ready with another session at most. -/
theorem Effect.exists_session_of_ready {skipScan : Bool} {project ready : Project}
    {m after : Machine} (hready : Effect.ready skipScan project m = (.ok ready, after)) :
    ∃ session, ready = project.withSession session := by
  cases skipScan with
  | true =>
      cases hready
      exact ⟨project.config.session, rfl⟩
  | false =>
      simp only [Effect.ready, Bool.false_eq_true, if_false, rescan, andThen, ofCheck] at hready
      cases hscan : project.config.session.rescan m with
      | error e =>
          rw [hscan] at hready
          cases hready
      | ok session =>
          simp only [hscan, Except.mapError] at hready
          rcases hsave : save (project.withSession session) m with ⟨e | saved, last⟩
          · rw [hsave] at hready
            cases hready
          · rw [hsave] at hready
            cases hready
            exact ⟨session, rfl⟩

theorem Effect.layout_of_ready {skipScan : Bool} {project ready : Project} {m after : Machine}
    (hready : Effect.ready skipScan project m = (.ok ready, after)) :
    ready.layout = project.layout := by
  obtain ⟨session, rfl⟩ := exists_session_of_ready hready
  rfl

namespace Command

variable {α : Type} {m : Machine} {printed : String}

theorem run_printLine (line : String) : ((printLine line).run).run ⟨m, printed⟩ =
    (.ok (), ⟨m, printed ++ line ++ "\n"⟩) := rfl

theorem run_printLines (lines : List String) : ((printLines lines).run).run ⟨m, printed⟩ =
    (.ok (), ⟨m, printed ++ .join (lines.map (· ++ "\n"))⟩) := by
  induction lines generalizing printed with
  | nil =>
      rw [List.map_nil, String.join_nil, String.append_empty]
      rfl
  | cons line lines ih =>
      have hrest : printLines (line :: lines) = printLine line >>= fun _ => printLines lines := rfl
      rw [hrest, run_bind, run_printLine]
      simp only [ih, List.map_cons, String.join_cons, String.append_assoc]

theorem run_machine (world : World) : (machine.run).run world = (.ok world.machine, world) := rfl

theorem run_check_id (result : Except CommandError α) (world : World) :
    ((check id result).run).run world = (result, world) := by
  cases result <;> rfl

theorem run_openProject (root : String) : ((openProject root).run).run ⟨m, printed⟩ =
    (Project.openAt m root, ⟨m, printed⟩) := by
  have hread : openProject root = machine >>= fun m => check id (Project.openAt m root) := rfl
  rw [hread, run_bind, run_machine]
  exact run_check_id _ _

theorem run_reportBuild (result : BuildResult) (json : Bool) (root : Path) :
    ((reportBuild result json root).run).run ⟨m, printed⟩ =
      (result.verdict, ⟨m, printed ++ result.shown json root⟩) := by
  cases json with
  | true =>
      simp only [reportBuild, if_true, printJson, run_bind, run_printLine, BuildResult.shown,
        String.append_assoc]
      cases result <;> rfl
  | false =>
      cases result with
      | success output =>
          simp only [reportBuild, Bool.false_eq_true, if_false, run_bind, run_printLine,
            BuildResult.shown, String.append_assoc]
          rfl
      | failure diagnostics =>
          simp only [reportBuild, Bool.false_eq_true, if_false, run_bind, run_printLine,
            run_printLines, BuildResult.shown, String.append_assoc, List.map_map]
          rfl

end Command

/-- A build leaves behind what is reported of its hand-over. -/
theorem Request.run_build (host : Host) (root : String) (asked : Option String)
    (skipScan json : Bool) (m : Machine) :
    (Request.build root asked skipScan json).run host m =
      match Effect.handover host.spawn root asked skipScan m with
      | (.ok handed, ready) => handed.report host.now json "" ready
      | (.error e, after) => ⟨.error e, after, ""⟩ := by
  simp only [run, command, Command.build, run_bind, Command.run_openProject, Effect.handover,
    Effect.openProject, Effect.andThen, Effect.ofCheck]
  cases hopen : Project.openAt m root with
  | error e => rfl
  | ok project =>
      obtain ⟨kept, hbuild⟩ := Command.run_runBuild host asked skipScan m "" project
      simp only [run_get, hbuild]
      rcases hready : Effect.ready skipScan project m with ⟨e | ready, scanned⟩
      · rfl
      · simp only [Effect.compile_eq, Effect.andThen, Effect.ofCheck]
        cases hhandover : ready.handover host.spawn asked with
        | error e => rfl
        | ok handed =>
            have hlayout : handed.layout = project.layout :=
              (Project.of_handover hhandover).1.trans (Effect.layout_of_ready hready)
            simp only [Effect.ofAction, Handover.report, hlayout]
            rcases ((handed.run host.now).run).run scanned with ⟨e | result, after⟩
            · rfl
            · simp only [run_bind, run_set, Command.run_reportBuild]

namespace Manifest

variable {spawn : Spawn} {m : Machine} {base : Path} {asked : Option String} {manifest : Manifest}
  {backend : Backend (StateM Machine)}

theorem handoverAt_of_load {path : String} (hload : load m (m.identity ⟨path⟩) = .ok manifest) :
    handoverAt spawn path asked m =
      manifest.handover spawn m ((m.identity ⟨path⟩).parent?.getD ⟨""⟩) asked := by
  simp only [handoverAt, hload]
  rfl

theorem handover_of_select (hselect : Command.selectBackend (Backend.all spawn none)
      ((asked <|> manifest.backend).getD Backend.defaultName) = .ok backend) :
    manifest.handover spawn m base asked =
      match (manifest.toSession m base).scanned
        (if manifest.scan then some (Session.rescan m) else none) with
      | .ok session => .ok ⟨⟨base⟩, backend, session, manifest.outputDirectoryFrom base⟩
      | .error e =>
        .error (.backend ((asked <|> manifest.backend).getD Backend.defaultName) (.scan e)) := by
  simp only [handover, hselect]
  cases (manifest.toSession m base).scanned
    (if manifest.scan then some (Session.rescan m) else none) <;> rfl

end Manifest

/-- A build of a manifest leaves behind what is reported of its hand-over. -/
theorem Request.run_buildManifest (host : Host) (path : String) (asked : Option String)
    (json : Bool) (m : Machine) :
    (Request.buildManifest path asked json).run host m =
      match Manifest.handoverAt host.spawn path asked m with
      | .ok handed => handed.report host.now json (if json then "" else handed.heading) m
      | .error e => ⟨.error e, m, ""⟩ := by
  simp only [run, command, Command.buildManifest, run_bind, Command.run_machine,
    Command.run_check_id]
  cases hload : Manifest.load m (m.identity ⟨path⟩) with
  | error e =>
      simp only [Manifest.handoverAt, hload]
      rfl
  | ok manifest =>
      rw [Manifest.handoverAt_of_load hload]
      generalize (m.identity ⟨path⟩).parent?.getD ⟨""⟩ = base
      dsimp only
      cases hselect : Command.selectBackend (Backend.all host.spawn none)
          ((asked <|> manifest.backend).getD Backend.defaultName) with
      | error e =>
          simp only [Manifest.handover, hselect]
          rfl
      | ok backend =>
          rw [Manifest.handover_of_select hselect]
          simp only [Command.run_onMachine, Effect.ofAction]
          cases hscan : (manifest.toSession m base).scanned
              (if manifest.scan then some (Session.rescan m) else none) with
          | error e => rw [run_scanAndBuild_of_error hscan]
          | ok scanned =>
              rw [run_scanAndBuild_of_ok hscan]
              let handed : Handover :=
                ⟨⟨base⟩, backend, scanned, manifest.outputDirectoryFrom base⟩
              have hrun : (Runner.mk backend (Stamp.refresher (Layout.mk base).stampPath
                  host.now)).run (scanned.descriptor (manifest.outputDirectoryFrom base)) =
                  handed.run host.now := rfl
              rw [hrun]
              simp only [Handover.report, Command.name_of_selectBackend hselect]
              rcases ((handed.run host.now).run).run m with ⟨e | result, after⟩
              · rfl
              · cases json with
                | true =>
                    simp only [Bool.not_true, Bool.false_eq_true, if_false, if_true,
                      Command.run_reportBuild]
                | false =>
                    simp only [Bool.not_false, if_true, run_bind, Command.run_printLine,
                      Command.run_reportBuild]
                    simp only [Bool.false_eq_true, if_false, Handover.heading, String.append_assoc]
                    rfl

end ScriptAssembly
