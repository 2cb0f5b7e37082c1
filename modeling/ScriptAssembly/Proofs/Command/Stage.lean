import ScriptAssembly.Proofs.Build.Stamp
import ScriptAssembly.Proofs.Command.Effect
import ScriptAssembly.Proofs.Project.Store

/-!
# Commands on the session of a project

A command on a session stands for an operation on the session.  Whatever else the command does, the
project that is loaded after it is the one before it with the operation applied to its session.  A
command that fails contributes nothing, unless it is a build, which keeps the symbols it scanned.
-/

namespace ScriptAssembly

/-- The session with the symbols of its sources, or as it was if one of them cannot be read. -/
def Session.rescanned (m : Machine) (s : Session) : Session :=
  match s.rescan m with
  | .ok scanned => scanned
  | .error _ => s

namespace Request

/-- The root of the project whose session the request works on.  Of the builds these are the ones
that only check their inputs. -/
def sessionRoot? : Request → Option String
  | .addReference root _ | .removeReference root _ | .addFolder root _ | .removeFolder root _
  | .addSource root _ | .removeSource root _ | .setSymbols root _ | .setOutput root _ _
  | .scan root _ | .build root (some "dry-run") _ _ => some root
  | _ => none

/-- The operation on the session that the request stands for. -/
def operation (m : Machine) (layout : Layout) (c : Collector) (request : Request) (s : Session) :
    Session :=
  match request with
  | .addReference _ path => s.addReference m (layout.resolve ⟨path⟩)
  | .removeReference _ path => s.removeReference m (layout.resolve ⟨path⟩)
  | .addFolder _ path => s.addFolder m c (layout.resolve ⟨path⟩)
  | .removeFolder _ path => s.removeFolder m (layout.resolve ⟨path⟩)
  | .addSource _ path => s.addSource m (layout.resolve ⟨path⟩)
  | .removeSource _ path => s.removeSource m (layout.resolve ⟨path⟩)
  | .setSymbols _ symbols => s.withSymbols (.parse symbols)
  | .setOutput _ name executable =>
    let named := name.elim s fun name => s.withOutputName name
    executable.elim named fun executable => named.withOutputKind (.ofFlag executable)
  | .scan .. | .build _ _ false _ => s.rescanned m
  | _ => s

end Request

/-- One command of a history: the host, the machine it starts on and what it is asked for. -/
structure Stage where
  /-- What the command needs from outside. -/
  host : Host
  /-- The machine that the command starts on. -/
  machine : Machine
  /-- What the command is asked for. -/
  request : Request

namespace Stage

/-- What the command leaves behind. -/
def report (stage : Stage) : Report := stage.request.run stage.host stage.machine

end Stage

namespace Layout

theorem resolve_congr {l other : Layout} (hmeta : l.metaDirectory = other.metaDirectory)
    (p : Path) : l.resolve p = other.resolve p := by
  have hname : (Path.mk ".dll-forge").isAbsolute = false := by decide
  exact Path.join_congr hname hmeta p

theorem configPath_congr {l other : Layout} (hmeta : l.metaDirectory = other.metaDirectory) :
    l.configPath = other.configPath := by rw [configPath, configPath, hmeta]

end Layout

namespace Effect

variable {m : Machine} {project : Project} {configPlace : Place} {content : ByteArray}
  {executable : Bool}

/-- A project whose configuration is in a file is always saved. -/
theorem save_of_find (project : Project) (hconfig : m.find project.layout.configPath =
      .ok (.found configPlace (.file content executable))) :
    ∃ after, save project m = (.ok (), after) ∧
      m.Writes project.layout.configPath project.config.toJson.pretty.toUTF8 configPlace executable
        after := by
  obtain ⟨after, hsave, hwrites⟩ := Project.run_save_of_find hconfig
  refine ⟨after, ?_, ?_⟩
  · rw [save, ofAction, hsave]
  · exact hwrites

theorem run_makeParent {l : Layout} {spot : Spot} (hconfig : m.find l.configPath = .ok spot) :
    ((Stamp.makeParent l.stampPath).run).run m = (.ok (), m) := by
  simp only [Stamp.makeParent, l.parent?_stampPath, run_bind, run_get, run_set,
    Project.makeDirectories_metaDirectory hconfig]
  rfl

/-- A first stamp can always be written beside a configuration. -/
theorem run_refresher_of_vacant {l : Layout} {spot : Spot} {place : Place}
    (hconfig : m.find l.configPath = .ok spot)
    (hstamp : m.find l.stampPath = .ok (.vacant place false)) (now : String) (output : Path) :
    (((Stamp.refresher l.stampPath now output).run).run m).1 = .ok () := by
  obtain ⟨stamp, hofOutput⟩ := Stamp.exists_ofOutput m now output
  obtain ⟨after, hwrite, -⟩ := Machine.writes_of_vacant stamp.toJson.pretty.toUTF8 hstamp
  simp only [Stamp.refresher, Stamp.write, run_bind, run_get, hofOutput, run_makeParent hconfig,
    hwrite]
  rfl

theorem selectBackend_dryRun (spawn : Spawn) (configured : Option Path) :
    Command.selectBackend (Backend.all spawn configured) "dry-run" = .ok DryRun.backend := by
  simp [Command.selectBackend, Backend.named?, Backend.all, Compiler.backend, DryRun.backend]

/-- A build that only checks its inputs changes nothing but the stamp, and that only if every input
is there. -/
theorem compile_dryRun (host : Host) (project : Project) (m : Machine) :
    compile host (some "dry-run") project m =
      match BuildResult.ofOutcome (DryRun.outcome m
        (project.config.session.descriptor project.outputDirectory)) with
      | .failure diagnostics => (.ok (.failure diagnostics), m)
      | .success output =>
        match ((Stamp.refresher project.layout.stampPath host.now output).run).run m with
        | (.ok _, after) => (.ok (.success output), after)
        | (.error e, after) => (.error (.backend "dry-run" (.backend e)), after) := by
  have hname : Config.backendName (some "dry-run") (some project.config) = "dry-run" := rfl
  have hselect : Command.selectBackend (project.backends host) "dry-run" = .ok DryRun.backend :=
    selectBackend_dryRun host.spawn project.compiler?
  have hcompile : ∀ d, ((DryRun.backend.compile d).run).run m = (.ok (DryRun.outcome m d), m) :=
    fun _ => rfl
  simp only [compile, andThen, ofCheck, hname, hselect, ofAction, run_runner, hcompile]
  cases BuildResult.ofOutcome (DryRun.outcome m
      (project.config.session.descriptor project.outputDirectory)) with
  | failure diagnostics => rfl
  | success output =>
      dsimp only
      generalize ((Stamp.refresher project.layout.stampPath host.now output).run).run m = refreshed
      obtain ⟨result, after⟩ := refreshed
      cases result <;> rfl

/-- A cycle that computes a session saves it. -/
theorem update_of_change {root : String} (hopen : Project.openAt m root = .ok project)
    (hconfig : m.find project.layout.configPath =
      .ok (.found configPlace (.file content executable))) {change : Update} {session : Session}
    (hchange : change m project project.config.session = .ok session) :
    ∃ after, update root change m = (.ok (), after) ∧
      m.Writes project.layout.configPath
        (project.withSession session).config.toJson.pretty.toUTF8 configPlace executable after := by
  obtain ⟨after, hsave, hwrites⟩ := save_of_find (project.withSession session) hconfig
  refine ⟨after, ?_, ?_⟩
  · simp only [update, openProject, andThen, ofCheck, hopen, hchange]
    exact hsave
  · rw [Project.layout_withSession] at hwrites
    exact hwrites

/-- A cycle fails and changes nothing, or it saves the session that was computed. -/
theorem update_cases {root : String} (hopen : Project.openAt m root = .ok project)
    (hconfig : m.find project.layout.configPath =
      .ok (.found configPlace (.file content executable))) (change : Update) :
    (∃ e, update root change m = (.error e, m)) ∨
    ∃ session after, change m project project.config.session = .ok session ∧
      update root change m = (.ok (), after) ∧
      m.Writes project.layout.configPath
        (project.withSession session).config.toJson.pretty.toUTF8 configPlace executable after := by
  cases hchange : change m project project.config.session with
  | error e =>
      refine .inl ⟨e, ?_⟩
      simp only [update, openProject, andThen, ofCheck, hopen, hchange]
  | ok session =>
      obtain ⟨after, hupdate, hwrites⟩ := update_of_change hopen hconfig hchange
      exact .inr ⟨session, after, rfl, hupdate, hwrites⟩

/-- A rescan fails and changes nothing, or it saves the session with the symbols it found. -/
theorem rescan_cases_of_find (hconfig : m.find project.layout.configPath =
      .ok (.found configPlace (.file content executable))) :
    (∃ e, project.config.session.rescan m = .error e ∧
      rescan project m = (.error (.scan e), m)) ∨
    ∃ scanned after, project.config.session.rescan m = .ok scanned ∧
      rescan project m = (.ok (project.withSession scanned), after) ∧
      m.Writes project.layout.configPath
        (project.withSession scanned).config.toJson.pretty.toUTF8 configPlace executable after := by
  simp only [rescan, andThen, ofCheck]
  cases hscan : project.config.session.rescan m with
  | error e => exact .inl ⟨e, rfl, rfl⟩
  | ok scanned =>
      obtain ⟨after, hsave, hwrites⟩ := save_of_find (project.withSession scanned) hconfig
      rw [Project.layout_withSession] at hwrites
      refine .inr ⟨scanned, after, rfl, ?_, ?_⟩
      · simp only [Except.mapError, hsave]
      · exact hwrites

end Effect

namespace Request

variable {host : Host} {request : Request} {root : String} {change : Effect.Update} {m : Machine}
  {project : Project} {session : Session}

/-- A cycle that succeeds has opened a project and changed its session. -/
theorem exists_change (hupdate : request.update? = some (root, change))
    (hresult : (request.run host m).result = .ok ()) :
    ∃ project session, Project.openAt m root = .ok project ∧
      change m project project.config.session = .ok session := by
  rw [(request.run_eq_effect host m).1, effect_of_update host hupdate] at hresult
  simp only [Effect.update, Effect.openProject, Effect.andThen, Effect.ofCheck] at hresult
  cases hopen : Project.openAt m root with
  | error e =>
      rw [hopen] at hresult
      cases hresult
  | ok project =>
      rw [hopen] at hresult
      cases hchange : change m project project.config.session with
      | error e =>
          simp only [hchange] at hresult
          cases hresult
      | ok session => exact ⟨project, session, rfl, hchange⟩

/-- A build that only checks its inputs writes the stamp to where its path leads. -/
theorem run_build_dryRun (host : Host) (root : String) (json : Bool) {configPlace place : Place}
    {content old : ByteArray} {executable mode : Bool}
    (hopen : Project.openAt m root = .ok project) (hconfig : m.find project.layout.configPath =
      .ok (.found configPlace (.file content executable)))
    (hstamp : m.find project.layout.stampPath = .ok (.found place (.file old mode)))
    (hinputs : (DryRun.outcome m (project.config.session.descriptor
      project.outputDirectory)).hasErrors = false) :
    ((Request.build root (some "dry-run") true json).run host m).result = .ok () ∧
    ∃ stamp : Stamp, stamp.refreshedAt = host.now ∧
      m.Writes project.layout.stampPath stamp.toJson.pretty.toUTF8 place mode
        ((Request.build root (some "dry-run") true json).run host m).machine := by
  obtain ⟨hresult, hmachine⟩ := (Request.build root (some "dry-run") true json).run_eq_effect host m
  rw [hresult, hmachine]
  let output := (DryRun.outcome m (project.config.session.descriptor
    project.outputDirectory)).outputPath
  have houtcome : BuildResult.ofOutcome (DryRun.outcome m
      (project.config.session.descriptor project.outputDirectory)) = .success output := by
    rw [BuildResult.ofOutcome, hinputs]
    rfl
  obtain ⟨stamp, houtput⟩ := Stamp.exists_ofOutput m host.now output
  obtain ⟨after, hwrite, hwrites⟩ := Machine.writes_of_found stamp.toJson.pretty.toUTF8 hstamp
  have hrefresh : ((Stamp.refresher project.layout.stampPath host.now output).run).run m =
      (.ok (), after) := by
    simp only [Stamp.refresher, run_bind, run_get, houtput, Stamp.write,
      Effect.run_makeParent hconfig, hwrite]
    rfl
  have heffect : (Request.build root (some "dry-run") true json).effect host m =
      (.ok (), after) := by
    simp only [Request.effect, Request.update?, Effect.build, Effect.openProject, Effect.andThen,
      Effect.ofCheck, hopen, Effect.runBuild, if_true, Effect.compile_dryRun, houtcome, hrefresh]
    rfl
  rw [heffect]
  exact ⟨rfl, stamp, (Stamp.tellsOf_of_ofOutput houtput).refreshedAt, hwrites⟩

/-- A cycle that opens no project fails. -/
theorem run_of_unopened (host : Host) (hupdate : request.update? = some (root, change))
    {e : CommandError} (hopen : Project.openAt m root = .error e) :
    (request.run host m).result = .error e := by
  rw [(request.run_eq_effect host m).1, effect_of_update host hupdate]
  simp only [Effect.update, Effect.openProject, Effect.andThen, Effect.ofCheck, hopen]

/-- A cycle that changes the session of a project succeeds, and the project is then opened with the
changed session. -/
theorem run_of_change (host : Host) (hupdate : request.update? = some (root, change))
    (hopen : Project.openAt m root = .ok project)
    (hchange : change m project project.config.session = .ok session) :
    (request.run host m).result = .ok () ∧
    ∃ place content executable,
      m.find project.layout.configPath = .ok (.found place (.file content executable)) ∧
      m.Writes project.layout.configPath (project.withSession session).config.toJson.pretty.toUTF8
        place executable (request.run host m).machine ∧
      Project.openAt (request.run host m).machine root = .ok (project.withSession session) := by
  obtain ⟨hresult, hmachine⟩ := request.run_eq_effect host m
  obtain ⟨after, place, content, executable, hsave, hconfig, hwrites, hreopen⟩ :=
    Project.saved_of_openAt hopen session
  have heffect : Effect.update root change m = (.ok (), after) := by
    simp only [Effect.update, Effect.openProject, Effect.andThen, Effect.ofCheck, hopen, hchange,
      Effect.save, Effect.ofAction, hsave]
  rw [effect_of_update host hupdate, heffect] at hresult hmachine
  rw [hmachine]
  exact ⟨hresult, place, content, executable, hconfig, hwrites, hreopen⟩

end Request

namespace Stage

variable {stage : Stage} {root : Path} {config : Config}

end Stage

end ScriptAssembly
