import ScriptAssembly.Proofs.Build.Unread
import ScriptAssembly.Proofs.Build.Verdict
import ScriptAssembly.Proofs.Collect.Shown
import ScriptAssembly.Proofs.Command.ScanThenBuild

/-!
# The pipeline of a build command

A build at the workbench scans and compiles as the pure pipeline does, but it saves in between.  So
it ends like a pipeline that reads the sources on the machine as it was and compiles on the one that
saving has left; a compiler that does not read the configuration makes this the same as compiling on
the machine as it was.
-/

namespace ScriptAssembly

section

variable {host : Host} {asked : Option String} {skipScan : Bool} {project : Project} {m : Machine}
  {backend : Backend (StateM Machine)}

/-- The session that is built is what the scan makes of it, and it is saved if it was scanned. -/
theorem Effect.ready_cases (hsave : skipScan = false → ∀ session,
      project.config.session.rescan m = .ok session →
      ((((project.withSession session).save).run).run m).1 = .ok ()) :
    let scan := if skipScan then none else some (Session.rescan m)
    (∃ e, project.config.session.scanned scan = .error e ∧
      Effect.ready skipScan project m = (.error (.scan e), m)) ∨
    ∃ session after, project.config.session.scanned scan = .ok session ∧
      Effect.ready skipScan project m = (.ok (project.withSession session), after) ∧
      ((skipScan = true ∧ after = m) ∨
        skipScan = false ∧ save (project.withSession session) m = (.ok (), after)) := by
  intro scan
  cases skipScan with
  | true => exact .inr ⟨project.config.session, m, rfl, rfl, .inl ⟨rfl, rfl⟩⟩
  | false =>
      have hscan : project.config.session.scanned scan = project.config.session.rescan m := rfl
      rw [hscan]
      simp only [ready, Bool.false_eq_true, if_false, rescan, andThen, ofCheck]
      cases hrescan : project.config.session.rescan m with
      | error e => exact .inl ⟨e, rfl, rfl⟩
      | ok session =>
          obtain ⟨after, hafter⟩ : ∃ after, save (project.withSession session) m =
              (.ok (), after) := by
            have hrun := hsave rfl session hrescan
            rw [save, ofAction]
            generalize ((project.withSession session).save.run).run m = saved at hrun ⊢
            obtain ⟨result, after⟩ := saved
            cases hrun
            exact ⟨after, rfl⟩
          refine .inr ⟨session, after, rfl, ?_, .inr ⟨trivial, hafter⟩⟩
          simp only [Except.mapError, hafter]

/-- A project that has been opened can be saved, and saving changes only what its configuration
holds. -/
theorem Effect.ready_cases_of_openAt {root : String} (hopen : Project.openAt m root = .ok project) :
    let scan := if skipScan then none else some (Session.rescan m)
    (∃ e, project.config.session.scanned scan = .error e ∧
      Effect.ready skipScan project m = (.error (.scan e), m)) ∨
    ∃ session after, project.config.session.scanned scan = .ok session ∧
      Effect.ready skipScan project m = (.ok (project.withSession session), after) ∧
      (after = m ∨ skipScan = false ∧ ∃ place content executable,
        m.find project.layout.configPath = .ok (.found place (.file content executable)) ∧
        m.SameApart (· = place) after) := by
  obtain ⟨known, -, hload⟩ := Project.openAt_eq_ok_iff.mp hopen
  obtain ⟨place, content, executable, hconfig⟩ := Project.find_configPath_of_load hload
  have hsave : skipScan = false → ∀ session, project.config.session.rescan m = .ok session →
      ((((project.withSession session).save).run).run m).1 = .ok () := by
    intro _ session _
    obtain ⟨after, hsave, -⟩ :=
      @Project.run_save_of_find _ (project.withSession session) _ _ _ hconfig
    exact congrArg Prod.fst hsave
  refine (ready_cases hsave).imp id ?_
  rintro ⟨session, after, hscanned, hready, hsaved⟩
  refine ⟨session, after, hscanned, hready, hsaved.imp And.right ?_⟩
  rintro ⟨hscans, hsaved⟩
  obtain ⟨saved, hsave, hwrites⟩ := save_of_find (project.withSession session) hconfig
  obtain rfl : after = saved := congrArg Prod.snd (hsaved.symm.trans hsave)
  exact ⟨hscans, place, content, executable, hconfig, hwrites.sameApart hconfig⟩

/-- Which backend a project is built with does not depend on its session. -/
theorem Effect.compile_of_select (hbackend : Command.selectBackend (project.backends host)
      (Config.backendName asked (some project.config)) = .ok backend) (session : Session) :
    compile host asked (project.withSession session) =
      ofAction (fun e => .backend backend.name (.backend e))
        ((Runner.mk backend (Stamp.refresher project.layout.stampPath host.now)).run
          (session.descriptor project.outputDirectory)) := by
  have hselect : Command.selectBackend ((project.withSession session).backends host)
      (Config.backendName asked (some (project.withSession session).config)) = .ok backend :=
    hbackend
  funext m
  simp only [compile, andThen, ofCheck, hselect]
  rw [Command.name_of_selectBackend hbackend]
  rfl

/-- Once the session is ready, a build at the workbench is a run of the backend on it. -/
theorem run_runBuild_of_ready {session : Session} {after : Machine}
    (hbackend : Command.selectBackend (project.backends host)
      (Config.backendName asked (some project.config)) = .ok backend)
    (hready : Effect.ready skipScan project m = (.ok (project.withSession session), after))
    (printed : String) :
    ((Command.runBuild host asked skipScan).run).run ⟨⟨m, printed⟩, project⟩ =
      match (((Runner.mk backend (Stamp.refresher project.layout.stampPath host.now)).run
        (session.descriptor project.outputDirectory)).run).run after with
      | (.ok result, last) => (.ok result, ⟨⟨last, printed⟩, project.withSession session⟩)
      | (.error e, last) => (.error (.backend backend.name (.backend e)),
          ⟨⟨last, printed⟩, project.withSession session⟩) := by
  obtain ⟨kept, hrun⟩ := Command.run_runBuild host asked skipScan m printed project
  rw [hready] at hrun
  refine hrun.trans ?_
  simp only [Effect.compile_of_select hbackend session, Effect.ofAction]
  rcases (((Runner.mk backend (Stamp.refresher project.layout.stampPath host.now)).run
    (session.descriptor project.outputDirectory)).run).run after with ⟨e | result, last⟩ <;> rfl

theorem runBuild_of_ready {session : Session} {after : Machine} {result : BuildResult}
    (hbackend : Command.selectBackend (project.backends host)
      (Config.backendName asked (some project.config)) = .ok backend)
    (hready : Effect.ready skipScan project m = (.ok (project.withSession session), after))
    (hbuilt : ((((Runner.mk backend (Stamp.refresher project.layout.stampPath host.now)).run
      (session.descriptor project.outputDirectory)).run).run after).1 = .ok result)
    (printed : String) :
    let ran := ((Command.runBuild host asked skipScan).run).run ⟨⟨m, printed⟩, project⟩
    ran.1 = .ok result ∧ ran.2.project.config.session = session := by
  intro ran
  have hran := run_runBuild_of_ready hbackend hready printed
  generalize (((Runner.mk backend (Stamp.refresher project.layout.stampPath host.now)).run
    (session.descriptor project.outputDirectory)).run).run after = built at hbuilt hran
  obtain ⟨ended, last⟩ := built
  cases hbuilt
  simp only [ran, hran]
  exact ⟨trivial, rfl⟩

/-- The ends of a build at the workbench and of the pipeline on the machine that saving has left. -/
theorem runBuild_cases (hbackend : Command.selectBackend (project.backends host)
      (Config.backendName asked (some project.config)) = .ok backend)
    (hsave : skipScan = false → ∀ session, project.config.session.rescan m = .ok session →
      ((((project.withSession session).save).run).run m).1 = .ok ()) (printed : String) :
    let ran := ((Command.runBuild host asked skipScan).run).run ⟨⟨m, printed⟩, project⟩
    let scan := if skipScan then none else some (Session.rescan m)
    let runner := Runner.mk backend (Stamp.refresher project.layout.stampPath host.now)
    let pipeline := scanAndBuild scan runner project.outputDirectory project.config.session
    let built := (pipeline.run).run (Effect.ready skipScan project m).2
    ran.2.world.machine = built.2 ∧
    ((∃ session result, built.1 = .ok (session, result) ∧ ran.1 = .ok result ∧
      ran.2.project.config.session = session) ∨
    (∃ e, built.1 = .error (.scan e) ∧ ran.1 = .error (.scan e)) ∨
    ∃ e, built.1 = .error (.backend e) ∧ ran.1 = .error (.backend backend.name (.backend e))) := by
  intro ran scan runner pipeline built
  rcases Effect.ready_cases hsave with
    ⟨e, hscanned, hready⟩ | ⟨session, after, hscanned, hready, -⟩
  · obtain ⟨kept, hrun⟩ := Command.run_runBuild host asked skipScan m printed project
    have hran : ran = (.error (.scan e), ⟨⟨m, printed⟩, kept⟩) := by
      rw [hready] at hrun
      exact hrun
    have hbuilt : built = (.error (.scan e), m) := by
      simp only [built, hready]
      exact run_scanAndBuild_of_error hscanned runner project.outputDirectory _
    rw [hran, hbuilt]
    exact ⟨rfl, .inr (.inl ⟨e, rfl, rfl⟩)⟩
  · let descriptor := session.descriptor project.outputDirectory
    have hran : ran = match ((runner.run descriptor).run).run after with
        | (.ok result, last) => (.ok result, ⟨⟨last, printed⟩, project.withSession session⟩)
        | (.error e, last) => (.error (.backend backend.name (.backend e)),
            ⟨⟨last, printed⟩, project.withSession session⟩) :=
      run_runBuild_of_ready hbackend hready printed
    have hbuilt : built = match ((runner.run descriptor).run).run after with
        | (.ok result, last) => (.ok (session, result), last)
        | (.error e, last) => (.error (.backend e), last) := by
      simp only [built, hready, pipeline]
      rw [run_scanAndBuild_of_ok hscanned]
      rcases ((runner.run descriptor).run).run after with ⟨e | result, last⟩ <;> rfl
    rw [hran, hbuilt]
    rcases ((runner.run descriptor).run).run after with ⟨e | result, last⟩
    · exact ⟨rfl, .inr (.inr ⟨e, rfl, rfl⟩)⟩
    · exact ⟨rfl, .inl ⟨session, result, rfl, rfl, rfl⟩⟩

/-- The pipeline comes to the same end before and after a configuration has been saved that the
compiler does not read. -/
theorem scanAndBuild_of_ignores {place : Place} {content : ByteArray} {executable : Bool}
    (hbackend : Command.selectBackend (project.backends host)
      (Config.backendName asked (some project.config)) = .ok backend)
    (hsave : skipScan = false → ∀ session, project.config.session.rescan m = .ok session →
      ((((project.withSession session).save).run).run m).1 = .ok ())
    (hconfig : m.find project.layout.configPath = .ok (.found place (.file content executable)))
    (hspawn : skipScan = false → backend.name ≠ "dry-run" → host.spawn.Ignores (· = place)) :
    let scan := if skipScan then none else some (Session.rescan m)
    let runner := Runner.mk backend (Stamp.refresher project.layout.stampPath host.now)
    let pipeline := scanAndBuild scan runner project.outputDirectory project.config.session
    ((pipeline.run).run m).1 = ((pipeline.run).run (Effect.ready skipScan project m).2).1 := by
  intro scan runner pipeline
  rcases Effect.ready_cases hsave with
    ⟨e, hscanned, hready⟩ | ⟨session, after, hscanned, hready, hsaved⟩
  · rw [hready]
  · rw [hready]
    rcases hsaved with ⟨-, rfl⟩ | ⟨hscans, hsaved⟩
    · rfl
    · obtain ⟨saved, hsave, hwrites⟩ := Effect.save_of_find (project.withSession session) hconfig
      obtain rfl : after = saved := congrArg Prod.snd (hsaved.symm.trans hsave)
      have hnamed := Command.named?_of_selectBackend hbackend
      rw [← Command.name_of_selectBackend hbackend] at hnamed
      obtain ⟨hsame, -⟩ := coupled_runner (hspawn hscans) hnamed project.layout.stampPath host.now
        (session.descriptor project.outputDirectory) m after (hwrites.sameApart hconfig)
      have hpipeline := fun m =>
        run_scanAndBuild_of_ok hscanned runner project.outputDirectory m
      rw [hpipeline m, hpipeline after]
      generalize ((runner.run (session.descriptor project.outputDirectory)).run).run m = first
        at hsame ⊢
      generalize ((runner.run (session.descriptor project.outputDirectory)).run).run after = second
        at hsame ⊢
      obtain ⟨e | built, last⟩ := first <;> obtain ⟨e' | built', last'⟩ := second <;> cases hsame
      · rfl
      · rfl

/-- A build at the workbench leaves a result and a session exactly if the pipeline ends with them,
and it fails to scan, to compile or to make the binary known exactly if the pipeline does and for
the same reason.  The pipeline runs on the machine that saving the scanned project has left, or on
any machine where saving only replaces a configuration that the compiler does not read. -/
theorem runBuild_iff_scanAndBuild (host : Host) (asked : Option String) (skipScan : Bool)
    (project : Project) (m : Machine) (printed : String) (backend : Backend (StateM Machine))
    (hbackend : Command.selectBackend (project.backends host)
      (Config.backendName asked (some project.config)) = .ok backend)
    (hsave : skipScan = false → ∀ session, project.config.session.rescan m = .ok session →
      ((((project.withSession session).save).run).run m).1 = .ok ()) :
    let ran := ((Command.runBuild host asked skipScan).run).run ⟨⟨m, printed⟩, project⟩
    let scan := if skipScan then none else some (Session.rescan m)
    let runner := Runner.mk backend (Stamp.refresher project.layout.stampPath host.now)
    let pipeline := scanAndBuild scan runner project.outputDirectory project.config.session
    let built := (pipeline.run).run (Effect.ready skipScan project m).2
    (∀ result session, (ran.1 = .ok result ∧ ran.2.project.config.session = session) ↔
      built.1 = .ok (session, result)) ∧
    (∀ e, ran.1 = .error (.scan e) ↔ built.1 = .error (.scan e)) ∧
    (∀ e, ran.1 = .error (.backend backend.name (.backend e)) ↔ built.1 = .error (.backend e)) ∧
    ran.2.world.machine = built.2 ∧
    ∀ place content executable,
      m.find project.layout.configPath = .ok (.found place (.file content executable)) →
      (skipScan = false → backend.name ≠ "dry-run" → host.spawn.Ignores (· = place)) →
      ((pipeline.run).run m).1 = built.1 := by
  intro ran scan runner pipeline built
  obtain ⟨hmachine, hends⟩ : ran.2.world.machine = built.2 ∧
      ((∃ session result, built.1 = .ok (session, result) ∧ ran.1 = .ok result ∧
        ran.2.project.config.session = session) ∨
      (∃ e, built.1 = .error (.scan e) ∧ ran.1 = .error (.scan e)) ∨
      ∃ e, built.1 = .error (.backend e) ∧
        ran.1 = .error (.backend backend.name (.backend e))) :=
    runBuild_cases hbackend hsave printed
  refine ⟨?_, ?_, ?_, hmachine, fun place content executable hconfig hspawn =>
    scanAndBuild_of_ignores hbackend hsave hconfig hspawn⟩
  · intro result session
    rcases hends with ⟨session', result', hbuilt, hran, hsession⟩ | ⟨e, hbuilt, hran⟩ |
      ⟨e, hbuilt, hran⟩
    · simp [hbuilt, hran, hsession, and_comm]
    · simp [hbuilt, hran]
    · simp [hbuilt, hran]
  · rcases hends with ⟨session, result, hbuilt, hran, -⟩ | ⟨e, hbuilt, hran⟩ |
      ⟨e, hbuilt, hran⟩ <;> simp [hbuilt, hran]
  · rcases hends with ⟨session, result, hbuilt, hran, -⟩ | ⟨e, hbuilt, hran⟩ |
      ⟨e, hbuilt, hran⟩ <;> simp [hbuilt, hran]

end

section Draft

/-- A program that succeeds exactly if the configuration of the draft reads as a text. -/
def Spawn.reading (text : String) : Spawn := fun _ _ => do
  match (← getThe Machine).readText draftLayout.configPath with
  | .ok found => return ⟨.code (if found = text then 0 else 1), .empty, .empty⟩
  | .error _ => return ⟨.code 2, .empty, .empty⟩

/-- The diagnostics of a compiler that fails without a word. -/
def wordless : List Diagnostic := [.error "compiler exited with exit status: 1"]

theorem ofOutcome_silent (d : Descriptor) :
    BuildResult.ofOutcome (Compiler.outcome d ⟨.code 0, .empty, .empty⟩) = .success d.outputPath ∧
      BuildResult.ofOutcome (Compiler.outcome d ⟨.code 1, .empty, .empty⟩) = .failure wordless := by
  constructor
  · cbv
  · cbv

variable (config : Config) (added : List (Place × Entry))

theorem find_src_draft : (draft config added).find ⟨"/w/src"⟩ =
    .ok (.found ["w", "src"] .directory) := by
  refine Disk.lookup_of_leads ["".toList, "w".toList, "src".toList] (by decide) rfl ?_
  exact .silent (.inl rfl) (.directory (by decide) rfl (.directory (by decide) rfl .arrived))

theorem endsNamed_src : (Path.mk "/w/src").EndsNamed :=
  ⟨⟨["w".toList], "src".toList, by decide, by decide⟩, by decide⟩

theorem identity_src_draft : (draft config added).identity ⟨"/w/src"⟩ = ⟨"/w/src"⟩ :=
  Machine.identity_of_place (by decide) (by decide) (find_src_draft config added)

/-- Where its directory lists nothing else, the source is all that is collected there. -/
theorem collect_draft (hlisted : (draft config added).disk.names ["w", "src"] =
    ["a.cs"].eraseDups.mergeSort (· ≤ ·)) :
    (Collector.mk "cs" false).collect (draft config added) ⟨"/w/src"⟩ = [⟨"/w/src/a.cs"⟩] := by
  have hnames : (draft config added).disk.names ["w", "src"] = ["a.cs"] := by
    simp [hlisted, List.eraseDups_cons]
  have hroot : (draft config added).IsRoot ⟨"/w/src"⟩ ["w", "src"] := by
    rw [Machine.IsRoot, identity_src_draft, find_src_draft]
  have hfiles : (draft config added).disk.filesBelow false ⟨"/w/src"⟩ [["w", "src"]] []
      ["w", "src"] = [["a.cs"]] := by
    rw [Disk.filesBelow_eq, Disk.listing, if_neg (by decide), hnames]
    rfl
  rw [Collector.collect_of_isRoot hroot, identity_src_draft, hfiles]
  decide

theorem resolve_draft : Compiler.resolve (draft config added) none = .ok ⟨"/w/csc"⟩ := by
  have hfind : (draft config added).find ⟨"/w/csc"⟩ =
      .ok (.found ["w", "csc"] (.file .empty true)) := by
    refine Disk.lookup_of_leads ["".toList, "w".toList, "csc".toList] (by decide) rfl ?_
    exact .silent (.inl rfl) (.directory (by decide) rfl (.file (by decide) rfl))
  have hvariable : (draft config added).environmentValue? Compiler.pinVariable = some "/w/csc" := rfl
  have hvalue : Compiler.fromVariable? (draft config added) = some ⟨"/w/csc"⟩ := by
    simp [Compiler.fromVariable?, hvariable, Machine.isFile_of_find hfind]
  rw [Compiler.resolve, hvalue]

section Alike

variable {config added} {m : Machine} {text found : String} {d : Descriptor}
  (halike : (draft config added).Alike m)
  (hparent : d.outputPath.parent? = some ⟨"/w/src"⟩)
  (hread : m.readText draftLayout.configPath = .ok found)

include halike hparent hread

/-- Where the directory of the binary is there, the compiler only runs. -/
theorem run_compile_reading : ((Compiler.compile (.reading text) none d).run).run m =
    (.ok (Compiler.outcome d ⟨.code (if found = text then 0 else 1), .empty, .empty⟩), m) := by
  have hwritten : (Path.mk "/w/src").text.isEmpty = false := by decide
  have hdirectory : m.find ⟨"/w/src"⟩ = .ok (.found ["w", "src"] .directory) :=
    halike.find_other (find_src_draft config added) (by simp)
  have hmade := Compiler.run_makeOutputDirectory hparent hwritten
    (Machine.makeDirectories_of_found endsNamed_src hdirectory)
  have hspawn : ∀ program arguments, ((Spawn.reading text program arguments).run).run m =
      (.ok ⟨.code (if found = text then 0 else 1), .empty, .empty⟩, m) := by
    intro program arguments
    simp only [Spawn.reading, run_bind, run_get, hread]
    rfl
  exact Compiler.run_compile_eq_ok_iff.mpr
    ⟨_, m, _, (halike.resolve none).trans (resolve_draft config added), hmade, hspawn _ _, rfl⟩

theorem run_runner_reading
    (hstamp : (draft config added).find draftLayout.stampPath = .ok (.vacant draftStamp false))
    (now : String) :
    ((((Runner.mk (Compiler.backend (.reading text) none)
      (Stamp.refresher draftLayout.stampPath now)).run d).run).run m).1 =
      .ok (if found = text then .success d.outputPath else .failure wordless) := by
  have hbackend : (Compiler.backend (.reading text) none).compile d =
      Compiler.compile (.reading text) none d := rfl
  obtain ⟨hsucceeds, hfails⟩ := ofOutcome_silent d
  rw [run_runner, hbackend, run_compile_reading halike hparent hread]
  by_cases hsame : found = text
  · obtain ⟨held, hconfig⟩ := halike.find_file (find_config_draft config added)
    have hrefresh := Effect.run_refresher_of_vacant hconfig (halike.find_other hstamp (by simp)) now
      d.outputPath
    simp only [if_pos hsame, hsucceeds]
    generalize ((Stamp.refresher draftLayout.stampPath now d.outputPath).run).run m = refreshed
      at hrefresh ⊢
    obtain ⟨result, after⟩ := refreshed
    cases hrefresh
    rfl
  · simp only [if_neg hsame, hfails]

end Alike

/-- The draft's project. -/
def draftProject : Project := ⟨draftLayout, draftConfig⟩

/-- The draft's session once its source has been scanned. -/
def scannedSession : Session := draftSession.withSymbols (.ofList ["NEW"])

theorem pretty_scanned_ne :
    (draftProject.withSession scannedSession).config.toJson.pretty ≠
      draftConfig.toJson.pretty := by
  intro hsame
  have hsymbols := congrArg (fun c => c.session.symbols.toList) (Config.eq_of_pretty_eq hsame)
  cases hsymbols

theorem save_draft (session : Session) :
    ((((draftProject.withSession session).save).run).run (draft draftConfig [])).1 = .ok () := by
  obtain ⟨after, place, content, executable, hsave, -, -, -⟩ :=
    Project.saved_of_openAt (openAt_draft draftConfig []) session
  exact congrArg Prod.fst hsave

/-- A compiler that does not run reads nothing, so the draft is built like its session. -/
theorem runBuild_iff_scanAndBuild_draft :
    let m := draft draftConfig []
    let backend := Compiler.backend Host.idle.spawn none
    let ran := ((Command.runBuild .idle none false).run).run ⟨⟨m, ""⟩, draftProject⟩
    let runner := Runner.mk backend (Stamp.refresher draftLayout.stampPath Host.idle.now)
    let pipeline := scanAndBuild (some (Session.rescan m)) runner draftProject.outputDirectory
      draftConfig.session
    Command.selectBackend (draftProject.backends .idle)
      (Config.backendName none (some draftConfig)) = .ok backend ∧
    (∀ session, ((((draftProject.withSession session).save).run).run m).1 = .ok ()) ∧
    ∀ result session, (ran.1 = .ok result ∧ ran.2.project.config.session = session) ↔
      ((pipeline.run).run m).1 = .ok (session, result) := by
  intro m backend ran runner pipeline
  have hidle : Host.idle.spawn.Ignores (· = draftPlace) := fun _ _ _ _ hsame =>
    ⟨rfl, hsame.alike⟩
  obtain ⟨hagree, -, -, -, hunread⟩ := runBuild_iff_scanAndBuild .idle none false draftProject m ""
    backend rfl fun _ session _ => save_draft session
  have hsame := hunread _ _ _ (find_config_draft draftConfig []) fun _ _ => hidle
  refine ⟨rfl, save_draft, fun result session => ?_⟩
  exact (hagree result session).trans (by rw [← hsame]; rfl)

/-- Where nothing is added at its place, the stamp of the draft is yet to be written. -/
theorem lookup_stamp_of_free (through : Bool)
    (hfree : (draft config added).disk.at? draftStamp = none) :
    (draft config added).disk.lookup (draft config added).directory through draftLayout.stampPath =
      .ok (.vacant draftStamp false) := by
  refine Disk.lookup_of_leads
    ["".toList, "w".toList, ".dll-forge".toList, "last_build.json".toList] (by decide) rfl ?_
  exact .silent (.inl rfl) (.directory (by decide) rfl
    (.directory (by decide) rfl (.vacant (by decide) hfree rfl)))

theorem lookup_stamp_draft (through : Bool) :
    (draft config []).disk.lookup (draft config []).directory through draftLayout.stampPath =
      .ok (.vacant draftStamp false) :=
  lookup_stamp_of_free config [] through rfl

theorem parent?_outputPath_draft {session : Session}
    (hname : session.outputName = Session.defaultOutputName) :
    (session.descriptor draftProject.outputDirectory).outputPath.parent? = some ⟨"/w/src"⟩ := by
  have houtput : (session.descriptor draftProject.outputDirectory).outputPath =
      draftProject.outputDirectory.join ⟨Session.defaultOutputName⟩ := by
    rw [← hname]
    rfl
  rw [houtput]
  decide

/-- A compiler that looks at the configuration finds the scanned symbols in it when the sources are
built at the workbench, and does not find them when the pipeline scans and builds the same session
on the same machine; then one build fails and the other does not. -/
theorem scanAndBuild_sees_unsaved :
    let host : Host := ⟨.reading draftConfig.toJson.pretty, "now"⟩
    let m := draft draftConfig []
    let ran := ((Command.runBuild host none false).run).run ⟨⟨m, ""⟩, draftProject⟩
    Project.openAt m "/w" = .ok draftProject ∧
    (∀ session, ((((draftProject.withSession session).save).run).run m).1 = .ok ()) ∧
    ∃ backend session output, Command.selectBackend (draftProject.backends host)
        (Config.backendName none (some draftConfig)) = .ok backend ∧
      ran.1 = .ok (.failure wordless) ∧ ran.2.project.config.session = session ∧
      let runner := Runner.mk backend (Stamp.refresher draftLayout.stampPath host.now)
      let pipeline := scanAndBuild (some (Session.rescan m)) runner draftProject.outputDirectory
        draftConfig.session
      ((pipeline.run).run m).1 = .ok (session, .success output) := by
  intro host m ran
  have hopen : Project.openAt m "/w" = .ok draftProject := openAt_draft draftConfig []
  have hrescan : draftProject.config.session.rescan m = .ok scannedSession :=
    rescan_draft draftConfig []
  have hconfig : m.find draftProject.layout.configPath = _ := find_config_draft draftConfig []
  have hparent := @parent?_outputPath_draft scannedSession rfl
  have hbackend : Command.selectBackend (draftProject.backends host)
      (Config.backendName none (some draftProject.config)) =
      .ok (Compiler.backend host.spawn none) := rfl
  obtain ⟨after, hsave, hwrites⟩ :=
    Effect.save_of_find (draftProject.withSession scannedSession) hconfig
  have hready : Effect.ready false draftProject m =
      (.ok (draftProject.withSession scannedSession), after) := by
    simp only [Effect.ready, Bool.false_eq_true, if_false, Effect.rescan, Effect.andThen,
      Effect.ofCheck, hrescan, Except.mapError, hsave]
  -- The build reads what it has saved.
  have hsaved := @run_runner_reading _ _ _ draftConfig.toJson.pretty _ _ (hwrites.alike hconfig)
    hparent (Machine.readText_of_find hwrites.find_written) (lookup_stamp_draft draftConfig true)
    host.now
  rw [if_neg pretty_scanned_ne] at hsaved
  obtain ⟨hran, hsession⟩ := runBuild_of_ready hbackend hready hsaved ""
  -- The pipeline reads what was there before.
  have hunsaved := @run_runner_reading _ _ _ draftConfig.toJson.pretty _ _ (Machine.Alike.refl m)
    hparent (Machine.readText_of_find hconfig) (lookup_stamp_draft draftConfig true) host.now
  rw [if_pos rfl] at hunsaved
  have hscanned : draftConfig.session.scanned (some (Session.rescan m)) = .ok scannedSession :=
    hrescan
  exact ⟨hopen, save_draft, _, scannedSession, _, hbackend, hran, hsession,
    scanAndBuild_of_scanned hscanned hunsaved⟩

end Draft

end ScriptAssembly
