import ScriptAssembly.Command.Request
import ScriptAssembly.Proofs.Action

/-!
# Effects of commands

What a command prints depends on the machine, but the machine never depends on what was printed.
The effect of a command is its result and the machine it leaves, with the printed text forgotten.
Every request has an effect that is put together from opening, saving and building a project.
-/

namespace ScriptAssembly

/-- The result of a command and the machine it leaves. -/
abbrev Effect (α : Type) := Machine → Except CommandError α × Machine

namespace Effect

variable {α β ε : Type}

/-- The result is read off the machine, which stays as it is. -/
def ofCheck (result : Machine → Except CommandError α) : Effect α := fun m => (result m, m)

/-- Where the first effect succeeds the next one follows on the machine it leaves. -/
def andThen (first : Effect α) (next : α → Effect β) : Effect β := fun m =>
  match first m with
  | (.ok x, after) => next x after
  | (.error e, after) => (.error e, after)

/-- An action on the machine; `wrap` tells what its failure means. -/
def ofAction (wrap : ε → CommandError) (action : ExceptT ε (StateM Machine) α) : Effect α :=
  fun m =>
    match (action.run).run m with
    | (.ok x, after) => (.ok x, after)
    | (.error e, after) => (.error (wrap e), after)

/-- The project at the root that a user names. -/
def openProject (root : String) : Effect Project := ofCheck fun m => Project.openAt m root

/-- The project is saved. -/
def save (project : Project) : Effect Unit := ofAction id project.save

/-- How a command computes the session it saves. -/
abbrev Update := Machine → Project → Session → Except CommandError Session

/-- One cycle of loading, updating and saving. -/
def update (root : String) (update : Update) : Effect Unit :=
  (openProject root).andThen fun project =>
    (ofCheck fun m => update m project project.config.session).andThen fun session =>
      save (project.withSession session)

/-- The symbols of a project become those of its sources, and it is saved. -/
def rescan (project : Project) : Effect Project :=
  (ofCheck fun m => (project.config.session.rescan m).mapError .scan).andThen fun session =>
    (save (project.withSession session)).andThen fun _ =>
      ofCheck fun _ => .ok (project.withSession session)

/-- The session of a project goes to the backend. -/
def compile (host : Host) (asked : Option String) (project : Project) : Effect BuildResult :=
  let name := Config.backendName asked (some project.config)
  (ofCheck fun _ => Command.selectBackend (project.backends host) name).andThen fun backend =>
    let runner : Runner (StateM Machine) :=
      ⟨backend, Stamp.refresher project.layout.stampPath host.now⟩
    ofAction (fun e => .backend name (.backend e))
      (runner.run (project.config.session.descriptor project.outputDirectory))

/-- A failed build fails the command. -/
def report (result : BuildResult) : Effect Unit := ofCheck fun _ =>
  match result with
  | .success _ => .ok ()
  | .failure diagnostics => .error (.buildFailed diagnostics.length)

/-- A project is scanned unless `skipScan` holds, and its session is built. -/
def runBuild (host : Host) (asked : Option String) (skipScan : Bool) (project : Project) :
    Effect BuildResult :=
  (if skipScan then ofCheck fun _ => .ok project else rescan project).andThen (compile host asked)

/-- A project as it goes to the backend: scanned unless `skipScan` holds. -/
def ready (skipScan : Bool) (project : Project) : Effect Project :=
  if skipScan then ofCheck fun _ => .ok project else rescan project

theorem runBuild_eq (host : Host) (asked : Option String) (skipScan : Bool) (project : Project) :
    runBuild host asked skipScan project = (ready skipScan project).andThen (compile host asked) :=
  rfl

/-- A project is opened and built. -/
def build (host : Host) (root : String) (asked : Option String) (skipScan : Bool) : Effect Unit :=
  (openProject root).andThen fun project => (runBuild host asked skipScan project).andThen report

/-- The manifest at a path is built. -/
def buildManifest (host : Host) (path : String) (asked : Option String) : Effect Unit :=
  (ofCheck .ok).andThen fun m =>
    let p := m.identity ⟨path⟩
    (ofCheck fun _ => Manifest.load m p).andThen fun manifest =>
      let base := p.parent?.getD ⟨""⟩
      let name := (asked <|> manifest.backend).getD Backend.defaultName
      (ofCheck fun _ => Command.selectBackend (Backend.all host.spawn none) name).andThen
        fun backend =>
          let runner : Runner (StateM Machine) :=
            ⟨backend, Stamp.refresher (Layout.mk base).stampPath host.now⟩
          let scan := if manifest.scan then some (Session.rescan m) else none
          (ofAction (.backend name) (scanAndBuild scan runner (manifest.outputDirectoryFrom base)
            (manifest.toSession m base))).andThen fun built => report built.2

end Effect

/-- The project that a new root starts with. -/
def Project.initial (m : Machine) (root : Path) (name : Option String) : Project where
  layout := ⟨root⟩
  config := (Config.new (name.getD root.projectName)).withSession <|
    match m.netstandard? root with
    | some library => Session.empty.addReference m library
    | none => Session.empty

/-- A project is started where there is none. -/
def Effect.init (root : String) (name : Option String) : Effect Unit :=
  (ofCheck fun m => (m.namedRoot root).mapError .workingDirectory).andThen fun path =>
    (ofCheck fun m =>
      if m.hasEntry (Layout.mk path).configPath then
        .error (.alreadyInitialized (Layout.mk path).configPath)
      else .ok (Project.initial m path name)).andThen save

/-- A host that runs no program. -/
def Host.idle : Host := ⟨fun _ _ => throw .notPermitted, "now"⟩

/-- The root and the update of a request that goes through one cycle of loading, updating and
saving. -/
def Request.update? : Request → Option (String × Effect.Update)
  | .addReference root path => some (root, fun m project session =>
    (Command.existingFile m project .missingReference path).map fun p => session.addReference m p)
  | .removeReference root path => some (root, fun m project session =>
    .ok (session.removeReference m (project.layout.resolve ⟨path⟩)))
  | .addFolder root path => some (root, fun m project session =>
    .ok (session.addFolder m project.collector (project.layout.resolve ⟨path⟩)))
  | .removeFolder root path => some (root, fun m project session =>
    .ok (session.removeFolder m (project.layout.resolve ⟨path⟩)))
  | .addSource root path => some (root, fun m project session =>
    (Command.existingFile m project .missingSource path).map fun p => session.addSource m p)
  | .removeSource root path => some (root, fun m project session =>
    .ok (session.removeSource m (project.layout.resolve ⟨path⟩)))
  | .setSymbols root symbols => some (root, fun _ _ session =>
    .ok (session.withSymbols (.parse symbols)))
  | .setOutput root name executable => some (root, fun _ _ session =>
    (Command.rename name session).map (Command.rekind executable))
  | .scan root _ => some (root, fun m _ session =>
    match session.rescan m with
    | .ok rescanned => .ok rescanned
    | .error e => .error (.scan e))
  | _ => none

/-- The effect of a request. -/
def Request.effect (host : Host) (request : Request) : Effect Unit :=
  match request.update? with
  | some (root, update) => .update root update
  | none =>
    match request with
    | .initProject root name => .init root name
    | .build root backend skipScan _ => .build host root backend skipScan
    | .buildManifest manifest backend _ => .buildManifest host manifest backend
    | .projectInfo root _ | .listInputs root _ =>
      (Effect.openProject root).andThen fun _ => .ofCheck fun _ => .ok ()
    | _ => .ofCheck fun _ => .ok ()

theorem Request.effect_of_update (host : Host) {request : Request} {root : String}
    {update : Effect.Update} (hupdate : request.update? = some (root, update)) :
    request.effect host = .update root update := by
  unfold effect
  rw [hupdate]

theorem Command.named?_of_selectBackend {known : List (Backend (StateM Machine))} {name : String}
    {backend : Backend (StateM Machine)} (hselect : selectBackend known name = .ok backend) :
    Backend.named? known name = some backend := by
  unfold selectBackend at hselect
  split at hselect
  · rename_i found hfound
    cases hselect
    exact hfound
  · cases hselect

theorem Command.name_of_selectBackend {known : List (Backend (StateM Machine))} {name : String}
    {backend : Backend (StateM Machine)} (hselect : selectBackend known name = .ok backend) :
    backend.name = name :=
  Backend.name_of_named? (named?_of_selectBackend hselect)

theorem Backend.mem_all_of_selectBackend {spawn : Spawn} {configured : Option Path} {name : String}
    {backend : Backend (StateM Machine)}
    (hselect : Command.selectBackend (all spawn configured) name = .ok backend) :
    backend ∈ all spawn configured :=
  List.mem_of_find?_eq_some (Command.named?_of_selectBackend hselect)

namespace Command

variable {α β ε : Type}

/-- The command has the effect, whatever has been printed before. -/
def HasEffect (c : Command α) (effect : Effect α) : Prop :=
  ∀ m printed, ∃ shown, (c.run).run ⟨m, printed⟩ = ((effect m).1, ⟨(effect m).2, shown⟩)

/-- The command only prints. -/
def Quiet (c : Command Unit) : Prop := c.HasEffect (.ofCheck fun _ => .ok ())

theorem hasEffect_pure (x : α) : (pure x : Command α).HasEffect (.ofCheck fun _ => .ok x) :=
  fun _ printed => ⟨printed, rfl⟩

theorem hasEffect_throw (e : CommandError) :
    (throw e : Command α).HasEffect (.ofCheck fun _ => .error e) :=
  fun _ printed => ⟨printed, rfl⟩

theorem hasEffect_machine : machine.HasEffect (.ofCheck .ok) :=
  fun _ printed => ⟨printed, rfl⟩

theorem hasEffect_check (wrap : ε → CommandError) (result : Except ε α) :
    (check wrap result).HasEffect (.ofCheck fun _ => result.mapError wrap) := by
  intro m printed
  cases result <;> exact ⟨printed, rfl⟩

theorem hasEffect_check_id (result : Except CommandError α) :
    (check id result).HasEffect (.ofCheck fun _ => result) := by
  intro m printed
  cases result <;> exact ⟨printed, rfl⟩

/-- An action on the machine prints nothing. -/
theorem run_onMachine (wrap : ε → CommandError) (action : ExceptT ε (StateM Machine) α)
    (m : Machine) (printed : String) : ((onMachine wrap action).run).run ⟨m, printed⟩ =
      ((Effect.ofAction wrap action m).1, ⟨(Effect.ofAction wrap action m).2, printed⟩) := by
  simp only [onMachine, run_bind, run_get, Effect.ofAction]
  rcases (action.run).run m with ⟨result, after⟩
  cases result <;> rfl

theorem hasEffect_onMachine (wrap : ε → CommandError) (action : ExceptT ε (StateM Machine) α) :
    (onMachine wrap action).HasEffect (.ofAction wrap action) :=
  fun m printed => ⟨printed, run_onMachine wrap action m printed⟩

theorem hasEffect_bind {c : Command α} {f : α → Command β} {effect : Effect α}
    {next : α → Effect β} (hfirst : c.HasEffect effect) (hnext : ∀ x, (f x).HasEffect (next x)) :
    (c >>= f).HasEffect (effect.andThen next) := by
  intro m printed
  obtain ⟨shown, hrun⟩ := hfirst m printed
  rw [run_bind, hrun, Effect.andThen]
  rcases effect m with ⟨result, after⟩
  cases result with
  | ok x => exact hnext x after shown
  | error e => exact ⟨shown, rfl⟩

/-- What is only printed does not count. -/
theorem hasEffect_bind_quiet {c : Command α} {f : α → Command Unit} {effect : Effect α}
    (hfirst : c.HasEffect effect) (hquiet : ∀ x, (f x).Quiet) :
    (c >>= f).HasEffect (effect.andThen fun _ => .ofCheck fun _ => .ok ()) :=
  hasEffect_bind hfirst hquiet

theorem hasEffect_quiet_bind {c : Command Unit} {f : Unit → Command α} {effect : Effect α}
    (hc : c.Quiet) (hnext : ∀ x, (f x).HasEffect effect) : (c >>= f).HasEffect effect :=
  hasEffect_bind hc hnext

theorem quiet_printLine (line : String) : (printLine line).Quiet :=
  fun _ printed => ⟨printed ++ line ++ "\n", rfl⟩

theorem quiet_printJson (value : Json) : (printJson value).Quiet := quiet_printLine value.pretty

theorem quiet_bind {c : Command Unit} {f : Unit → Command Unit} (hfirst : c.Quiet)
    (hnext : ∀ x, (f x).Quiet) : (c >>= f).Quiet := hasEffect_bind hfirst hnext

theorem quiet_printLines (lines : List String) : (printLines lines).Quiet := by
  induction lines with
  | nil => exact hasEffect_pure ()
  | cons line lines ih => exact quiet_bind (quiet_printLine line) fun _ => ih

theorem HasEffect.congr {c : Command α} {effect same : Effect α} (hc : c.HasEffect effect)
    (hsame : ∀ m, effect m = same m) : c.HasEffect same := by
  obtain rfl : effect = same := funext hsame
  exact hc

theorem hasEffect_read {c : Machine → Command α} {effect : Machine → Effect α}
    (hc : ∀ m, (c m).HasEffect (effect m)) : (machine >>= c).HasEffect fun m => effect m m :=
  hasEffect_bind hasEffect_machine hc

theorem hasEffect_openProject (root : String) :
    (openProject root).HasEffect (.openProject root) := by
  have hread := hasEffect_read fun m => hasEffect_check_id (Project.openAt m root)
  exact hread

theorem hasEffect_update {root : String} {update : Effect.Update}
    {tell : Project × Project → Command Unit} (htell : ∀ projects, (tell projects).Quiet) :
    (updateProject root update >>= tell).HasEffect (.update root update) := by
  have hcycle := hasEffect_bind (hasEffect_openProject root) fun project =>
    hasEffect_read fun m =>
      hasEffect_bind (hasEffect_check_id (update m project project.config.session)) fun session =>
        hasEffect_bind (hasEffect_onMachine id (project.withSession session).save) fun _ =>
          hasEffect_pure (project, project.withSession session)
  refine (hasEffect_bind_quiet hcycle htell).congr fun m => ?_
  simp only [Effect.update, Effect.openProject, Effect.andThen, Effect.ofCheck, Effect.save]
  cases Project.openAt m root with
  | error e => rfl
  | ok project =>
      dsimp only
      cases update m project project.config.session with
      | error e => rfl
      | ok session =>
          dsimp only
          rcases Effect.ofAction id (project.withSession session).save m with ⟨result, after⟩
          cases result <;> rfl

theorem hasEffect_updateSession {root : String} {update : Effect.Update}
    {tell : Project → Command Unit} (htell : ∀ project, (tell project).Quiet) :
    (updateSession root update >>= tell).HasEffect (.update root update) := by
  have heffect : (updateProject root update >>= fun projects => tell projects.2).HasEffect
      (.update root update) := hasEffect_update fun projects => htell projects.2
  rw [updateSession, bind_assoc]
  simpa only [pure_bind] using heffect

theorem hasEffect_ite {condition : Prop} [Decidable condition] {c other : Command α}
    {effect otherwise : Effect α} (hc : c.HasEffect effect) (hother : other.HasEffect otherwise) :
    HasEffect (if condition then c else other) (if condition then effect else otherwise) := by
  split
  · exact hc
  · exact hother

theorem hasEffect_throw_bind {f : α → Command β} (e : CommandError) :
    (throw e >>= f : Command β).HasEffect (.ofCheck fun _ => .error e) :=
  fun _ printed => ⟨printed, rfl⟩

theorem hasEffect_save {project : Project} {tell : Command Unit} (htell : tell.Quiet) :
    (save project >>= fun _ => tell).HasEffect (.save project) := by
  refine (hasEffect_bind_quiet (hasEffect_onMachine id project.save) fun _ => htell).congr
    fun m => ?_
  simp only [Effect.andThen, Effect.save]
  rcases Effect.ofAction id project.save m with ⟨result, after⟩
  cases result <;> rfl

theorem hasEffect_initProject (root : String) (name : Option String) :
    (initProject root name).HasEffect (.init root name) := by
  apply HasEffect.congr
  · refine hasEffect_read fun m => hasEffect_bind (hasEffect_check _ _) fun path =>
      hasEffect_read fun here => hasEffect_ite (hasEffect_throw_bind _) (hasEffect_save ?_)
    iterate 5 refine quiet_bind (quiet_printLine _) fun _ => ?_
    exact quiet_printLine _
  · intro m
    simp only [Effect.init, Effect.andThen, Effect.ofCheck]
    cases (m.namedRoot root).mapError CommandError.workingDirectory with
    | error e => rfl
    | ok path =>
        dsimp only
        by_cases hentry : m.hasEntry (Layout.mk path).configPath
        · rw [if_pos hentry, if_pos hentry]
          rfl
        · rw [if_neg hentry, if_neg hentry]
          rfl

theorem quiet_ite {condition : Prop} [Decidable condition] {c other : Command Unit}
    (hc : c.Quiet) (hother : other.Quiet) : Quiet (if condition then c else other) := by
  split
  · exact hc
  · exact hother

theorem quiet_read {c : Machine → Command Unit} (hc : ∀ m, (c m).Quiet) : (machine >>= c).Quiet :=
  hasEffect_read hc

theorem hasEffect_projectInfo (root : String) (json : Bool) :
    (projectInfo root json).HasEffect
      ((Effect.openProject root).andThen fun _ => .ofCheck fun _ => .ok ()) := by
  refine hasEffect_bind_quiet (hasEffect_openProject root) fun project => ?_
  refine quiet_ite (quiet_printJson _) ?_
  iterate 13 refine quiet_bind (quiet_printLine _) fun _ => ?_
  exact quiet_read fun m => quiet_bind (quiet_printLine _) fun _ => quiet_printLine _

theorem hasEffect_listInputs (root : String) (json : Bool) :
    (listInputs root json).HasEffect
      ((Effect.openProject root).andThen fun _ => .ofCheck fun _ => .ok ()) := by
  refine hasEffect_bind_quiet (hasEffect_openProject root) fun project => ?_
  refine quiet_ite (quiet_printJson _) ?_
  iterate 3 refine quiet_bind (quiet_printLines _) fun _ => ?_
  exact quiet_bind (quiet_printLine _) fun _ => quiet_printLine _

theorem quiet_listBackends (host : Host) (json : Bool) : (listBackends host json).Quiet :=
  quiet_ite (quiet_printJson _) (quiet_bind (quiet_printLine _) fun _ => quiet_printLines _)

theorem hasEffect_reportBuild (result : BuildResult) (json : Bool) (root : Path) :
    (reportBuild result json root).HasEffect (.report result) := by
  have hlast : ∀ tell : Command Unit, tell.Quiet → HasEffect (tell >>= fun _ =>
      match result with
      | .success _ => pure ()
      | .failure diagnostics => throw (.buildFailed diagnostics.length)) (.report result) := by
    intro tell htell
    refine hasEffect_quiet_bind htell fun _ => ?_
    cases result with
    | success output => exact hasEffect_pure ()
    | failure diagnostics => exact hasEffect_throw _
  unfold reportBuild
  cases json with
  | true => exact hlast _ (quiet_printJson _)
  | false =>
      cases result with
      | success output => exact hlast _ (quiet_printLine _)
      | failure diagnostics =>
          exact hlast (do printLine _; printLines _)
            (quiet_bind (quiet_printLine _) fun _ => quiet_printLines _)

theorem run_command (wrap : ε → CommandError) (action : ExceptT ε (StateM Machine) α)
    (m : Machine) (printed : String) (project : Project) :
    ((Workbench.command (onMachine wrap action)).run).run ⟨⟨m, printed⟩, project⟩ =
      ((Effect.ofAction wrap action m).1,
        ⟨⟨(Effect.ofAction wrap action m).2, printed⟩, project⟩) := by
  simp only [Workbench.command, run_bind, run_get, run_onMachine, run_set]
  rcases Effect.ofAction wrap action m with ⟨result, after⟩
  cases result <;> rfl

/-- A rescan leaves the project with its new session at the workbench. -/
theorem run_rescan (m : Machine) (printed : String) (project : Project) :
    ∃ kept, (Workbench.rescan.run).run ⟨⟨m, printed⟩, project⟩ =
      match Effect.rescan project m with
      | (.ok updated, after) => (.ok (), ⟨⟨after, printed⟩, updated⟩)
      | (.error e, after) => (.error e, ⟨⟨after, printed⟩, kept⟩) := by
  simp only [Workbench.rescan, Workbench.takeSession, run_bind, run_get, run_set, run_pure,
    Effect.rescan, Effect.andThen, Effect.ofCheck]
  cases project.config.session.rescan m with
  | error e => exact ⟨_, rfl⟩
  | ok session =>
      let updated := project.withSession session
      refine ⟨updated, ?_⟩
      have hupdated : (project.withSession .empty).withSession session = updated := rfl
      simp only [run_bind, run_modify, run_get, hupdated, save, run_command, Except.mapError,
        Effect.save]
      rcases Effect.ofAction id updated.save m with ⟨result, after⟩
      cases result <;> rfl

theorem run_runBuild_unscanned (host : Host) (asked : Option String) (m : Machine)
    (printed : String) (project : Project) :
    ((runBuild host asked true).run).run ⟨⟨m, printed⟩, project⟩ =
      ((Effect.compile host asked project m).1,
        ⟨⟨(Effect.compile host asked project m).2, printed⟩, project⟩) := by
  simp only [runBuild, Bool.not_true, Bool.false_eq_true, if_false, run_bind, run_get,
    Effect.compile, Effect.andThen, Effect.ofCheck]
  cases selectBackend (project.backends host)
    (Config.backendName asked (some project.config)) with
  | error e => rfl
  | ok backend => exact run_command _ _ m printed project

theorem runBuild_scanned (host : Host) (asked : Option String) :
    runBuild host asked false = Workbench.rescan >>= fun _ => runBuild host asked true := rfl

/-- A build leaves the project at the workbench as it was handed to the backend. -/
theorem run_runBuild (host : Host) (asked : Option String) (skipScan : Bool) (m : Machine)
    (printed : String) (project : Project) :
    ∃ kept, ((runBuild host asked skipScan).run).run ⟨⟨m, printed⟩, project⟩ =
      match Effect.ready skipScan project m with
      | (.ok ready, scanned) => ((Effect.compile host asked ready scanned).1,
          ⟨⟨(Effect.compile host asked ready scanned).2, printed⟩, ready⟩)
      | (.error e, after) => (.error e, ⟨⟨after, printed⟩, kept⟩) := by
  cases skipScan with
  | true => exact ⟨project, run_runBuild_unscanned host asked m printed project⟩
  | false =>
      obtain ⟨kept, hrescan⟩ := run_rescan m printed project
      refine ⟨kept, ?_⟩
      rw [runBuild_scanned, run_bind, hrescan, Effect.ready, if_neg (by decide)]
      rcases Effect.rescan project m with ⟨result, after⟩
      cases result with
      | error e => rfl
      | ok updated => exact run_runBuild_unscanned host asked after printed updated

theorem hasEffect_build (host : Host) (root : String) (asked : Option String)
    (skipScan json : Bool) :
    (build host root asked skipScan json).HasEffect (.build host root asked skipScan) := by
  refine hasEffect_bind (hasEffect_openProject root) fun project => ?_
  intro m printed
  obtain ⟨kept, hrun⟩ := run_runBuild host asked skipScan m printed project
  simp only [run_bind, run_get, hrun, Effect.runBuild_eq, Effect.andThen]
  rcases Effect.ready skipScan project m with ⟨- | ready, scanned⟩
  · exact ⟨printed, rfl⟩
  · dsimp only
    rcases Effect.compile host asked ready scanned with ⟨- | result, after⟩
    · exact ⟨printed, rfl⟩
    · exact hasEffect_reportBuild result json project.layout.root after printed

theorem hasEffect_buildManifest (host : Host) (path : String) (asked : Option String)
    (json : Bool) :
    (buildManifest host path asked json).HasEffect (.buildManifest host path asked) := by
  refine hasEffect_bind hasEffect_machine fun m => ?_
  refine hasEffect_bind (hasEffect_check_id _) fun manifest => ?_
  refine hasEffect_bind (hasEffect_check_id _) fun backend => ?_
  refine hasEffect_bind (hasEffect_onMachine _ _) fun built => ?_
  have hreport := hasEffect_reportBuild built.2 json
    (((m.identity ⟨path⟩).parent?).getD ⟨""⟩)
  cases json with
  | true => exact hreport
  | false =>
      refine hasEffect_quiet_bind (quiet_printLine _) fun _ => ?_
      exact hasEffect_quiet_bind (quiet_printLine _) fun _ => hreport

theorem hasEffect_command (host : Host) (request : Request) :
    (request.command host).HasEffect (request.effect host) := by
  cases request with
  | initProject root name => exact hasEffect_initProject root name
  | projectInfo root json => exact hasEffect_projectInfo root json
  | addReference root path =>
      exact hasEffect_updateSession fun project =>
        quiet_bind (quiet_printLine _) fun _ => quiet_printLines _
  | removeReference root path => exact hasEffect_updateSession fun project => quiet_printLine _
  | addFolder root path =>
      exact hasEffect_update fun projects => quiet_bind (quiet_printLine _) fun _ =>
        quiet_bind (quiet_printLine _) fun _ => quiet_printLine _
  | removeFolder root path => exact hasEffect_updateSession fun project => quiet_printLine _
  | addSource root path => exact hasEffect_updateSession fun project => quiet_printLine _
  | removeSource root path => exact hasEffect_updateSession fun project => quiet_printLine _
  | listInputs root json => exact hasEffect_listInputs root json
  | setSymbols root symbols => exact hasEffect_updateSession fun project => quiet_printLine _
  | setOutput root name executable =>
      exact hasEffect_updateSession fun project => quiet_printLine _
  | scan root json =>
      exact hasEffect_updateSession fun project => quiet_ite (quiet_printJson _)
        (quiet_bind (quiet_printLine _) fun _ => quiet_printLine _)
  | build root backend skipScan json => exact hasEffect_build host root backend skipScan json
  | buildManifest manifest backend json =>
      exact hasEffect_buildManifest host manifest backend json
  | listBackends json => exact quiet_listBackends host json

end Command

/-- The result and the machine of a report are those of the effect of its request. -/
theorem Request.run_eq_effect (host : Host) (request : Request) (m : Machine) :
    (request.run host m).result = (request.effect host m).1 ∧
      (request.run host m).machine = (request.effect host m).2 := by
  obtain ⟨shown, hrun⟩ := Command.hasEffect_command host request m ""
  rw [Request.run, hrun]
  exact ⟨rfl, rfl⟩

end ScriptAssembly
