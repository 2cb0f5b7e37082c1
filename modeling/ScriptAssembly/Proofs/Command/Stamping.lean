import ScriptAssembly.CommandLine
import ScriptAssembly.Proofs.Build.Backends
import ScriptAssembly.Proofs.Command.Pipeline
import ScriptAssembly.Proofs.Machine.Identity
import ScriptAssembly.Proofs.Project.Stamp

/-!
# When a build writes its stamp

A build succeeds exactly if its backend reports no errors and the stamp is written, and then the
stamp tells of the binary.  A build that fails anywhere else keeps the stamp there was.  Where there
was none it writes none; only the directory of the binary can take its place.
-/

namespace ScriptAssembly

namespace Handover

/-- The backend reports no errors, and the stamp of the binary is written. -/
structure Succeeds (now : String) (handed : Handover) (ready : Machine) (o : Outcome)
    (compiled after : Machine) : Prop where
  /-- The backend has an outcome. -/
  compiles : ((handed.backend.compile handed.descriptor).run).run ready = (.ok o, compiled)
  /-- There are no errors. -/
  clean : o.hasErrors = false
  /-- The stamp is written. -/
  refreshes : ((Stamp.refresher handed.layout.stampPath now o.outputPath).run).run compiled =
    (.ok (), after)

variable {handed : Handover} {now : String}

/-- What is handed over is built, or its build fails with at most the directory for a stamp made
after the backend has run. -/
theorem report_cases (now : String) (json : Bool) (before : String) (handed : Handover)
    (ready : Machine) :
    let report := handed.report now json before ready
    let compiled := (((handed.backend.compile handed.descriptor).run).run ready).2
    (∃ o after, handed.Succeeds now ready o compiled after ∧ report.result = .ok () ∧
      report.machine = after) ∨
    (∃ e, report.result = .error e) ∧
      (∀ o between after, ¬handed.Succeeds now ready o between after) ∧
      (report.machine = compiled ∨
        report.machine = (compiled.makeDirectories handed.layout.metaDirectory).1) := by
  intro report compiled
  let runner := Runner.mk handed.backend (Stamp.refresher handed.layout.stampPath now)
  obtain ⟨calls, result, last, hgoes, hrun, -⟩ := runner.goes_watched handed.descriptor ready []
  have hreport : report = match (result, last) with
      | (.ok result, after) =>
        ⟨result.verdict, after, before ++ result.shown json handed.layout.root⟩
      | (.error e, after) => ⟨.error (.backend handed.backend.name (.backend e)), after, ""⟩ := by
    rw [← hrun]
    rfl
  have hcompiled : ∀ {answer between}, ((handed.backend.compile handed.descriptor).run).run ready =
      (answer, between) → compiled = between := fun hcompile => congrArg Prod.snd hcompile
  cases hgoes with
  | uncompiled hcompile =>
      refine .inr ⟨⟨_, by rw [hreport]⟩, ?_, .inl (by rw [hreport, hcompiled hcompile])⟩
      intro o between after hsucceeds
      cases hcompile.symm.trans hsucceeds.compiles
  | failed hcompile herrors =>
      refine .inr ⟨⟨_, by rw [hreport]; rfl⟩, ?_, .inl (by rw [hreport, hcompiled hcompile])⟩
      intro o between after hsucceeds
      cases hcompile.symm.trans hsucceeds.compiles
      rw [hsucceeds.clean] at herrors
      cases herrors
  | unrefreshed hcompile hclean hrefresh =>
      refine .inr ⟨⟨_, by rw [hreport]⟩, ?_, .inr ?_⟩
      · intro o between after hsucceeds
        cases hcompile.symm.trans hsucceeds.compiles
        cases hrefresh.symm.trans hsucceeds.refreshes
      · have hstopped := Stamp.machine_of_refresher_error hrefresh
        rw [Stamp.prepared_stampPath] at hstopped
        rw [hreport, hcompiled hcompile]
        exact hstopped
  | @succeeded o between _ hcompile hclean hrefresh =>
      have hbetween := hcompiled hcompile
      refine .inl ⟨o, last, ?_, by rw [hreport]; rfl, by rw [hreport]⟩
      rw [hbetween]
      exact ⟨hcompile, hclean, hrefresh⟩

end Handover

namespace Effect

variable {spawn : Spawn} {root : String} {asked : Option String} {skipScan : Bool} {m : Machine}

/-- Scanning and saving a project keeps its stamp. -/
theorem stamp_of_ready {project : Project} {place : Place} {content : ByteArray}
    {executable : Bool}
    (hconfig : m.find project.layout.configPath = .ok (.found place (.file content executable))) :
    project.layout.Rooted (ready skipScan project m).2 ∧
      ((skipScan = false → project.layout.Apart m) →
        project.layout.KeepsStamp m (ready skipScan project m).2) := by
  cases skipScan with
  | true => exact ⟨.of_find hconfig, fun _ => .refl project.layout m⟩
  | false =>
      rcases rescan_cases_of_find hconfig with ⟨e, -, hrun⟩ | ⟨scanned, after, -, hrun, hwrites⟩
      · simp only [ready, Bool.false_eq_true, if_false, hrun]
        exact ⟨.of_find hconfig, fun _ => .refl project.layout m⟩
      · simp only [ready, Bool.false_eq_true, if_false, hrun]
        exact ⟨.of_find hwrites.find_written,
          fun hapart => .of_writes hwrites hconfig (hapart trivial)⟩

theorem of_handover {handed : Handover} {ready : Machine}
    (hhanded : handover spawn root asked skipScan m = (.ok handed, ready)) :
    m.namedRoot root = .ok handed.layout.root ∧ handed.layout.Rooted ready ∧
      ∃ configured, handed.backend ∈ Backend.all spawn configured := by
  cases hopen : Project.openAt m root with
  | error e =>
      simp only [handover, openProject, andThen, ofCheck, hopen] at hhanded
      cases hhanded
  | ok project =>
      obtain ⟨known, hroot, hload⟩ := Project.openAt_eq_ok_iff.mp hopen
      obtain ⟨place, content, executable, hconfig⟩ := Project.find_configPath_of_load hload
      have hrooted := (@stamp_of_ready skipScan m project _ _ _ hconfig).1
      obtain ⟨-, config, -, -, rfl⟩ := Project.load_eq_ok_iff.mp hload
      rw [handover_eq_of_openAt hopen] at hhanded
      rcases hready : Effect.ready skipScan ⟨⟨known⟩, config⟩ m with ⟨e | project, after⟩
      · rw [hready] at hhanded
        cases hhanded
      · rw [hready] at hhanded hrooted
        obtain ⟨hproject, rfl⟩ := Prod.mk.inj hhanded
        have hlayout := (Project.of_handover hproject).1.trans (layout_of_ready hready)
        rw [hlayout]
        have hselect := Project.select_of_handover hproject
        exact ⟨hroot, hrooted, _, Backend.mem_all_of_selectBackend hselect⟩

/-- Opening a project and making it ready is all that a hand-over does to the machine. -/
theorem machine_of_handover (spawn : Spawn) (root : String) (asked : Option String)
    (skipScan : Bool) (m : Machine) :
    (handover spawn root asked skipScan m).2 = m ∨
    ∃ project, Project.openAt m root = .ok project ∧
      (handover spawn root asked skipScan m).2 = (ready skipScan project m).2 := by
  cases hopen : Project.openAt m root with
  | error e =>
      left
      simp only [handover, openProject, andThen, ofCheck, hopen]
  | ok project =>
      refine .inr ⟨project, rfl, ?_⟩
      rw [handover_eq_of_openAt hopen]
      rcases ready skipScan project m with ⟨e | ready, after⟩ <;> rfl

/-- Opening, scanning and saving a project changes at most what its configuration holds. -/
theorem alike_handover (spawn : Spawn) (root : String) (asked : Option String) (skipScan : Bool)
    (m : Machine) : m.Alike (handover spawn root asked skipScan m).2 := by
  rcases machine_of_handover spawn root asked skipScan m with hsame | ⟨project, hopen, hmachine⟩
  · rw [hsame]
    exact .refl m
  · obtain ⟨_, -, hload⟩ := Project.openAt_eq_ok_iff.mp hopen
    obtain ⟨place, content, executable, hconfig⟩ := Project.find_configPath_of_load hload
    rw [hmachine]
    cases skipScan with
    | true => exact .refl m
    | false =>
        rcases rescan_cases_of_find hconfig with ⟨e, -, hrun⟩ | ⟨scanned, after, -, hrun, hwrites⟩
        · simp only [ready, Bool.false_eq_true, if_false, hrun]
          exact .refl m
        · simp only [ready, Bool.false_eq_true, if_false, hrun]
          exact hwrites.alike hconfig

end Effect

theorem Manifest.find_of_load {m : Machine} {p : Path} {manifest : Manifest}
    (hload : load m p = .ok manifest) :
    ∃ place content executable, m.find p = .ok (.found place (.file content executable)) := by
  cases hread : m.readText p with
  | error cause =>
      rw [load, hread] at hload
      cases hload
  | ok text => exact Machine.find_of_readText hread

theorem Manifest.of_handoverAt {spawn : Spawn} {path : String} {asked : Option String} {m : Machine}
    {handed : Handover} (hhanded : handoverAt spawn path asked m = .ok handed) :
    handed.layout = ⟨(m.identity ⟨path⟩).parent?.getD ⟨""⟩⟩ ∧ handed.layout.Rooted m ∧
      ∃ manifest, load m (m.identity ⟨path⟩) = .ok manifest ∧
        Command.selectBackend (Backend.all spawn none)
          ((asked <|> manifest.backend).getD Backend.defaultName) = .ok handed.backend := by
  cases hload : load m (m.identity ⟨path⟩) with
  | error e =>
      simp only [handoverAt, hload] at hhanded
      cases hhanded
  | ok manifest =>
      obtain ⟨place, content, executable, hfile⟩ := find_of_load hload
      have hrooted := Layout.Rooted.of_file (Machine.isAbsolute_identity_of_find hfile) hfile
      rw [handoverAt_of_load hload] at hhanded
      cases hselect : Command.selectBackend (Backend.all spawn none)
          ((asked <|> manifest.backend).getD Backend.defaultName) with
      | error e =>
          simp only [handover, hselect] at hhanded
          cases hhanded
      | ok backend =>
          rw [handover_of_select hselect] at hhanded
          split at hhanded
          · obtain rfl := Except.ok.inj hhanded
            exact ⟨rfl, hrooted, manifest, rfl, hselect⟩
          · cases hhanded

namespace Request

/-- The half of a build in front of its backend. -/
def handover? (host : Host) : Request → Option (Effect Handover)
  | .build root asked skipScan _ => some (.handover host.spawn root asked skipScan)
  | .buildManifest path asked _ =>
    some fun m => (Manifest.handoverAt host.spawn path asked m, m)
  | _ => none

/-- The paths that a build goes by. -/
def layout? (m : Machine) : Request → Option Layout
  | .build root .. =>
    match m.namedRoot root with
    | .ok path => some ⟨path⟩
    | .error _ => none
  | .buildManifest path .. => some ⟨(m.identity ⟨path⟩).parent?.getD ⟨""⟩⟩
  | _ => none

variable {host : Host} {request : Request} {handover : Effect Handover} {m : Machine}

/-- A build leaves behind what is reported of its hand-over. -/
theorem run_of_handover? (hhandover : request.handover? host = some handover) (m : Machine) :
    ∃ (json : Bool) (before : Handover → String), request.run host m =
      match handover m with
      | (.ok handed, ready) => handed.report host.now json (before handed) ready
      | (.error e, after) => ⟨.error e, after, ""⟩ := by
  cases request with
  | build root asked skipScan json =>
      cases hhandover
      exact ⟨json, fun _ => "", run_build host root asked skipScan json m⟩
  | buildManifest path asked json =>
      cases hhandover
      refine ⟨json, fun handed => if json then "" else handed.heading, ?_⟩
      rw [run_buildManifest]
      dsimp only
      cases Manifest.handoverAt host.spawn path asked m <;> rfl
  | _ => cases hhandover

/-- A build that hands nothing over fails there. -/
theorem run_of_handover_error (hhandover : request.handover? host = some handover) {e : CommandError}
    {after : Machine} (hhanded : handover m = (.error e, after)) :
    request.run host m = ⟨.error e, after, ""⟩ := by
  obtain ⟨json, before, hrun⟩ := run_of_handover? hhandover m
  rw [hhanded] at hrun
  exact hrun

/-- A build that hands something over ends as that does. -/
theorem run_of_handover_ok (hhandover : request.handover? host = some handover) {handed : Handover}
    {ready : Machine} (hhanded : handover m = (.ok handed, ready)) :
    ∃ json before, request.run host m = handed.report host.now json before ready := by
  obtain ⟨json, before, hrun⟩ := run_of_handover? hhandover m
  rw [hhanded] at hrun
  exact ⟨json, before handed, hrun⟩

theorem of_handover? (hhandover : request.handover? host = some handover) {handed : Handover}
    {ready : Machine} (hhanded : handover m = (.ok handed, ready)) :
    request.layout? m = some handed.layout ∧ handed.layout.Rooted ready ∧
      ∃ configured, handed.backend ∈ Backend.all host.spawn configured := by
  cases request with
  | build root asked skipScan json =>
      cases hhandover
      obtain ⟨hroot, hrooted, hbackend⟩ := Effect.of_handover hhanded
      exact ⟨by rw [layout?, hroot], hrooted, hbackend⟩
  | buildManifest path asked json =>
      cases hhandover
      obtain ⟨hlayout, hrooted, _, -, hselect⟩ := Manifest.of_handoverAt (Prod.mk.inj hhanded).1
      obtain rfl : m = ready := (Prod.mk.inj hhanded).2
      exact ⟨by rw [layout?, hlayout], hrooted, none, Backend.mem_all_of_selectBackend hselect⟩
  | _ => cases hhandover

/-- A build succeeds if its backend has no errors and the stamp is written, and at no other end. -/
theorem result_eq_ok_iff (hhandover : request.handover? host = some handover) (m : Machine) :
    (request.run host m).result = .ok () ↔ ∃ handed ready o compiled after,
      handover m = (.ok handed, ready) ∧ handed.Succeeds host.now ready o compiled after := by
  rcases hhanded : handover m with ⟨e | handed, ready⟩
  · rw [run_of_handover_error hhandover hhanded]
    constructor
    · rintro ⟨⟩
    · rintro ⟨_, _, _, _, _, ⟨⟩, -⟩
  · obtain ⟨json, before, hrun⟩ := run_of_handover_ok hhandover hhanded
    rw [hrun]
    rcases Handover.report_cases host.now json before handed ready with
      ⟨o, after, hsucceeds, hresult, -⟩ | ⟨⟨e, hresult⟩, hnone, -⟩
    · exact ⟨fun _ => ⟨_, _, _, _, _, rfl, hsucceeds⟩, fun _ => hresult⟩
    · rw [hresult]
      constructor
      · rintro ⟨⟩
      · rintro ⟨_, _, o, compiled, after, ⟨⟩, hsucceeds⟩
        exact absurd hsucceeds (hnone o compiled after)

/-- A build that succeeds leaves a stamp that tells of its binary. -/
theorem stamp_of_succeeds (hhandover : request.handover? host = some handover) {handed : Handover}
    {ready compiled after : Machine} {o : Outcome} (hhanded : handover m = (.ok handed, ready))
    (hsucceeds : handed.Succeeds host.now ready o compiled after) :
    request.layout? m = some handed.layout ∧ (request.run host m).machine = after ∧
      o.outputPath = handed.descriptor.outputPath ∧
      ∃ stamp : Stamp, stamp.TellsOf compiled handed.descriptor.outputPath host.now ∧
        (request.run host m).machine.readText handed.layout.stampPath = .ok stamp.toJson.pretty ∧
        Json.decodeText Stamp.decode stamp.toJson.pretty = .ok stamp := by
  obtain ⟨hlayout, -, configured, hbackend⟩ := of_handover? hhandover hhanded
  have hmachine : (request.run host m).machine = after := by
    obtain ⟨json, before, hrun⟩ := run_of_handover_ok hhandover hhanded
    rw [hrun]
    rcases Handover.report_cases host.now json before handed ready with
      ⟨other, last, hother, -, hlast⟩ | ⟨-, hnone, -⟩
    · cases hsucceeds.compiles.symm.trans hother.compiles
      cases hsucceeds.refreshes.symm.trans hother.refreshes
      exact hlast
    · exact absurd hsucceeds (hnone o compiled after)
  have houtput := Backend.outputPath_of_all hbackend hsucceeds.compiles
  obtain ⟨stamp, htells, hread⟩ := Stamp.readText_of_refresher hsucceeds.refreshes
  rw [houtput] at htells
  rw [hmachine]
  exact ⟨hlayout, rfl, houtput, stamp, htells, hread, stamp.decode_pretty⟩

end Request

section Draft

variable {spawn : Spawn} {config : Config} {added : List (Place × Entry)} {made : Machine}

/-- The draft handed over to be checked. -/
def checkedDraft : Handover :=
  ⟨draftLayout, DryRun.backend, draftSession, draftProject.outputDirectory⟩

/-- Its check succeeds wherever its stamp is yet to be written. -/
theorem succeeds_checkedDraft_of_vacant
    (hstamp : (draft draftConfig added).find draftLayout.stampPath =
      .ok (.vacant draftStamp false)) :
    ∃ o after, checkedDraft.Succeeds Host.idle.now (draft draftConfig added) o
      (draft draftConfig added) after := by
  have hclean : (DryRun.outcome (draft draftConfig added)
      (draftSession.descriptor draftProject.outputDirectory)).hasErrors = false :=
    clean_of_source (Machine.isFile_of_find (find_source_draft draftConfig added)) _ _
  have hrefresh := Effect.run_refresher_of_vacant (find_config_draft draftConfig added) hstamp
    Host.idle.now checkedDraft.descriptor.outputPath
  rcases hwritten : ((Stamp.refresher draftLayout.stampPath Host.idle.now
    checkedDraft.descriptor.outputPath).run).run (draft draftConfig added) with ⟨result, after⟩
  rw [hwritten] at hrefresh
  cases hrefresh
  exact ⟨_, after, rfl, hclean, hwritten⟩

end Draft

end ScriptAssembly
