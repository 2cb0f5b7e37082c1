import ScriptAssembly.Proofs.Command.Handover
import ScriptAssembly.Proofs.Command.Stage
import ScriptAssembly.Proofs.Machine.Identity
import ScriptAssembly.Proofs.Session.Rescan

/-!
# Scanning before building

A scan saves the session that a build without it would have compiled from memory.  What the build
then loads is that session, so both ways hand over the same and end alike; only the time of the
stamp may differ.
-/

namespace ScriptAssembly

/-- What a scan prints of the session it has saved. -/
def Session.shownScan (json : Bool) (session : Session) : String :=
  if json then
    Json.pretty (.object [
      ("sources", .ofNat session.sources.size),
      ("symbols", session.symbols.toJson),
      ("define", .string session.symbols.toDelimited)]) ++ "\n"
  else
    s!"Scanned {session.sources.size} source(s)" ++ "\n" ++
      s!"Custom Scripting Define Symbols Detected: {session.symbols.toDelimited}" ++ "\n"

namespace Command

variable {m : Machine} {printed : String}

theorem run_updateProject {root : String} {change : Effect.Update} {project : Project}
    {session : Session} (hopen : Project.openAt m root = .ok project)
    (hchange : change m project project.config.session = .ok session) :
    ((updateProject root change).run).run ⟨m, printed⟩ =
      match Effect.save (project.withSession session) m with
      | (.ok _, after) => (.ok (project, project.withSession session), ⟨after, printed⟩)
      | (.error e, after) => (.error e, ⟨after, printed⟩) := by
  simp only [updateProject, run_bind, run_openProject, hopen, run_machine, run_check_id, hchange,
    save, run_onMachine, Effect.save]
  rcases Effect.ofAction id (project.withSession session).save m with ⟨e | _, after⟩ <;> rfl

theorem run_updateSession {root : String} {change : Effect.Update} {project : Project}
    {session : Session} (hopen : Project.openAt m root = .ok project)
    (hchange : change m project project.config.session = .ok session) :
    ((updateSession root change).run).run ⟨m, printed⟩ =
      match Effect.save (project.withSession session) m with
      | (.ok _, after) => (.ok (project.withSession session), ⟨after, printed⟩)
      | (.error e, after) => (.error e, ⟨after, printed⟩) := by
  rw [updateSession, run_bind, run_updateProject hopen hchange]
  rcases Effect.save (project.withSession session) m with ⟨e | _, after⟩ <;> rfl

end Command

/-- A scan that succeeds has opened a project, read all of its sources and saved their symbols. -/
theorem Request.run_scan {host : Host} {root : String} {json : Bool} {m : Machine}
    (hscan : ((Request.scan root json).run host m).result = .ok ()) :
    ∃ project session, Project.openAt m root = .ok project ∧
      project.config.session.rescan m = .ok session ∧
      Effect.save (project.withSession session) m =
        (.ok (), ((Request.scan root json).run host m).machine) ∧
      ((Request.scan root json).run host m).printed = session.shownScan json := by
  have hupdate : (Request.scan root json).update? = some (root, _) := rfl
  obtain ⟨project, session, hopen, hchange⟩ := exists_change hupdate hscan
  obtain ⟨hresult, hmachine⟩ := (Request.scan root json).run_eq_effect host m
  rw [hscan, effect_of_update host hupdate] at hresult
  rw [effect_of_update host hupdate] at hmachine
  simp only [Effect.update, Effect.openProject, Effect.andThen, Effect.ofCheck, hopen, hchange]
    at hresult hmachine
  have hsave : Effect.save (project.withSession session) m =
      (.ok (), ((Request.scan root json).run host m).machine) :=
    Prod.ext hresult.symm hmachine.symm
  refine ⟨project, session, hopen, ?_, hsave, ?_⟩
  · cases hrescan : project.config.session.rescan m with
    | error e =>
        rw [hrescan] at hchange
        cases hchange
    | ok scanned =>
        rw [hrescan] at hchange
        cases hchange
        rfl
  · have hprinted : ((Command.scan root json).run).run ⟨m, ""⟩ = (.ok (),
        ⟨((Request.scan root json).run host m).machine, session.shownScan json⟩) := by
      rw [Command.scan, run_bind, Command.run_updateSession hopen hchange, hsave]
      dsimp only [Project.withSession, Config.withSession]
      cases json with
      | true =>
          simp only [if_true, Command.printJson, Command.run_printLine, Session.shownScan,
            String.empty_append]
      | false =>
          simp only [Bool.false_eq_true, if_false, run_bind, Command.run_printLine,
            Session.shownScan, String.empty_append]
    rw [run, command, hprinted]

theorem Request.scan_of_rescan {host : Host} {root : String} {json : Bool} {m : Machine}
    {project : Project} {session : Session} (hopen : Project.openAt m root = .ok project)
    (hrescan : project.config.session.rescan m = .ok session) :
    ((Request.scan root json).run host m).result = .ok () := by
  obtain ⟨hresult, -⟩ := (Request.scan root json).run_eq_effect host m
  obtain ⟨after, place, content, executable, hsave, -, -, -⟩ :=
    Project.saved_of_openAt hopen session
  rw [hresult]
  simp only [effect, update?, Effect.update, Effect.openProject, Effect.andThen, Effect.ofCheck,
    hopen, hrescan, Effect.save, Effect.ofAction, hsave]

namespace Effect

variable {spawn : Spawn} {root : String} {asked : Option String} {m after : Machine}
  {project : Project} {session : Session}

/-- A build that opens a project makes it ready and hands it over. -/
theorem handover_eq_of_openAt {skipScan : Bool} (hopen : Project.openAt m root = .ok project) :
    handover spawn root asked skipScan m =
      match ready skipScan project m with
      | (.ok ready, after) => (ready.handover spawn asked, after)
      | (.error e, after) => (.error e, after) := by
  simp only [handover, openProject, andThen, ofCheck, hopen]
  rcases ready skipScan project m with ⟨e | ready, after⟩ <;> rfl

/-- A build hands over the project with the session that its scan has saved. -/
theorem handover_of_rescan (hopen : Project.openAt m root = .ok project)
    (hrescan : project.config.session.rescan m = .ok session)
    (hsave : save (project.withSession session) m = (.ok (), after)) :
    handover spawn root asked false m =
      ((project.withSession session).handover spawn asked, after) := by
  rw [handover_eq_of_openAt hopen]
  simp only [ready, Bool.false_eq_true, if_false, rescan, andThen, ofCheck, hrescan,
    Except.mapError, hsave]

/-- A build that does not scan hands over the project that it opens. -/
theorem handover_of_openAt (hopen : Project.openAt m root = .ok project) :
    handover spawn root asked true m = (project.handover spawn asked, m) :=
  handover_eq_of_openAt hopen

/-- A project that is saved is opened with the session that was saved. -/
theorem openAt_of_save {session : Session} (hopen : Project.openAt m root = .ok project)
    (hsave : save (project.withSession session) m = (.ok (), after)) :
    Project.openAt after root = .ok (project.withSession session) := by
  obtain ⟨_, _, _, _, hrun, -, -, hreopen⟩ := Project.saved_of_openAt hopen session
  rw [save, ofAction, hrun] at hsave
  cases hsave
  exact hreopen

end Effect

/-- The second report tells the same as the first one, and only the time of the stamp differs. -/
structure Report.SameButTime (stampPath : Path) (now later : String) (first second : Report) :
    Prop where
  /-- The results are the same. -/
  result : second.result = first.result
  /-- The same has been printed. -/
  printed : second.printed = first.printed
  /-- The machines differ at most in the time of the stamp. -/
  machine : Stamp.SameButTime stampPath now later first.machine second.machine

theorem Report.SameButTime.refl (stampPath : Path) (now later : String) (report : Report) :
    Report.SameButTime stampPath now later report report := ⟨rfl, rfl, .inl rfl⟩

/-- What is handed over is built with the same result at all times. -/
theorem Handover.report_sameButTime (now later : String) (json : Bool) (before : String)
    (handed : Handover) (m : Machine) :
    Report.SameButTime handed.layout.stampPath now later (handed.report now json before m)
      (handed.report later json before m) := by
  obtain ⟨hresult, hmachine⟩ := run_runner_congr handed.backend handed.layout.stampPath now later
    handed.descriptor m
  have hnow : (Runner.mk handed.backend (Stamp.refresher handed.layout.stampPath now)).run
      handed.descriptor = handed.run now := rfl
  have hlater : (Runner.mk handed.backend (Stamp.refresher handed.layout.stampPath later)).run
      handed.descriptor = handed.run later := rfl
  rw [hnow, hlater] at hresult hmachine
  unfold report
  generalize ((handed.run now).run).run m = first at hresult hmachine ⊢
  generalize ((handed.run later).run).run m = second at hresult hmachine ⊢
  obtain ⟨e | result, after⟩ := first <;> obtain ⟨e' | result', after'⟩ := second <;> cases hresult
  · exact ⟨rfl, rfl, hmachine⟩
  · exact ⟨rfl, rfl, hmachine⟩

/-- A build that scans ends as one does that is run without a scan on what it saves. -/
theorem Request.run_build_of_rescan {host : Host} {root : String} {asked : Option String}
    {json : Bool} {m after : Machine} {project : Project} {session : Session}
    (hopen : Project.openAt m root = .ok project)
    (hrescan : project.config.session.rescan m = .ok session)
    (hsave : Effect.save (project.withSession session) m = (.ok (), after)) :
    (Request.build root asked false json).run host m =
      (Request.build root asked true json).run host after := by
  rw [run_build, run_build, Effect.handover_of_rescan hopen hrescan hsave,
    Effect.handover_of_openAt (Effect.openAt_of_save hopen hsave)]

/-- A project that is scanned first and then built without a scan hands over what a build alone
would, ends as that build does, and differs from it at most in the time of the stamp.  What the
scan prints is what the compiler is told to define.  A configuration that is not the same afterwards
is the stamp itself, which a link has led there. -/
theorem build_after_scan (host : Host) (spawn : Spawn) (now later : String) (m : Machine)
    (root : String) (asked : Option String) (shown json : Bool)
    (hscan : ((Request.scan root shown).run host m).result = .ok ()) :
    let scanned := (Request.scan root shown).run host m
    let resumed := (Request.build root asked true json).run ⟨spawn, later⟩ scanned.machine
    let alone := (Request.build root asked false json).run ⟨spawn, now⟩ m
    ∃ project session, Project.openAt m root = .ok project ∧
      project.config.session.rescan m = .ok session ∧
      scanned.printed = session.shownScan shown ∧
      Effect.handover spawn root asked true scanned.machine =
        Effect.handover spawn root asked false m ∧
      (∀ handed ready, Effect.handover spawn root asked false m = (.ok handed, ready) →
        handed.descriptor.compilerOptions =
          if session.symbols.toDelimited = "" then none
          else some ("/define:" ++ session.symbols.toDelimited)) ∧
      Report.SameButTime project.layout.stampPath now later alone resumed ∧
      (now = later → resumed.machine = alone.machine) ∧
      (resumed.machine.readBytes project.layout.configPath =
          alone.machine.readBytes project.layout.configPath ∨
        alone.machine.find project.layout.configPath =
          alone.machine.find project.layout.stampPath ∧
        ∃ stamp : Stamp,
          alone.machine.readBytes project.layout.configPath =
            .ok (stamp.dated now).toJson.pretty.toUTF8 ∧
          resumed.machine.readBytes project.layout.configPath =
            .ok (stamp.dated later).toJson.pretty.toUTF8) := by
  intro scanned resumed alone
  obtain ⟨project, session, hopen, hrescan, hsave, hprinted⟩ := Request.run_scan hscan
  have hreopen : Project.openAt scanned.machine root = .ok (project.withSession session) :=
    Effect.openAt_of_save hopen hsave
  have halone := @Effect.handover_of_rescan spawn root asked _ _ _ _ hopen hrescan hsave
  have hresumed := @Effect.handover_of_openAt spawn root asked _ _ hreopen
  have hsymbols : ∀ name ∈ session.symbols.toList, name ≠ "" := by
    obtain ⟨symbols, hsymbols, rfl⟩ := Session.rescan_eq_ok_iff.mp hrescan
    exact Machine.ne_empty_of_mem_scanFiles hsymbols
  have hsame : Report.SameButTime project.layout.stampPath now later alone resumed := by
    simp only [alone, resumed, Request.run_build, halone, hresumed]
    cases hhandover : (project.withSession session).handover spawn asked with
    | error e => exact .refl _ _ _ _
    | ok handed =>
        obtain ⟨hlayout, -, -⟩ := Project.of_handover hhandover
        rw [Project.layout_withSession] at hlayout
        rw [← hlayout]
        exact handed.report_sameButTime now later json "" scanned.machine
  refine ⟨project, session, hopen, hrescan, hprinted, hresumed.trans halone.symm, ?_, hsame, ?_, ?_⟩
  · intro handed ready hhandover
    have hhanded := congrArg Prod.fst (halone.symm.trans hhandover)
    obtain ⟨-, hsession, -⟩ := Project.of_handover hhanded
    have hflag : handed.descriptor.compilerOptions = session.symbols.defineFlag? :=
      congrArg (fun session => session.symbols.defineFlag?) hsession
    rw [hflag, SymbolSet.defineFlag?_of_ne_empty hsymbols]
  · rintro rfl
    exact hsame.machine.eq_of_now
  · exact hsame.machine.readBytes _

section Draft

/-- A machine with a project whose only source asks for a symbol, and with a compiler. -/
def draft (config : Config) (added : List (Place × Entry)) : Machine where
  disk := ⟨[(["w"], .directory), (["w", ".dll-forge"], .directory),
    (["w", ".dll-forge", "project.json"], .file config.toJson.pretty.toUTF8 false),
    (["w", "csc"], .file .empty true), (["w", "src"], .directory),
    (["w", "src", "a.cs"], .file "#if NEW".toUTF8 false)] ++ added⟩
  directory := ["w"]
  environment := [(Compiler.pinVariable, "/w/csc")]

/-- The place of the configuration of the draft. -/
def draftPlace : Place := ["w", ".dll-forge", "project.json"]

/-- The layout of the draft. -/
def draftLayout : Layout := ⟨⟨"/w"⟩⟩

variable (config : Config) (added : List (Place × Entry))

theorem find_root_draft : (draft config added).find ⟨"/w"⟩ = .ok (.found ["w"] .directory) := by
  refine Disk.lookup_of_leads ["".toList, "w".toList] (by decide) rfl ?_
  exact .silent (.inl rfl) (.directory (by decide) rfl .arrived)

theorem find_config_draft : (draft config added).find draftLayout.configPath =
    .ok (.found draftPlace (.file config.toJson.pretty.toUTF8 false)) := by
  refine Disk.lookup_of_leads
    ["".toList, "w".toList, ".dll-forge".toList, "project.json".toList] (by decide) rfl ?_
  exact .silent (.inl rfl) (.directory (by decide) rfl
    (.directory (by decide) rfl (.file (by decide) rfl)))

theorem find_source_draft : (draft config added).find ⟨"/w/src/a.cs"⟩ =
    .ok (.found ["w", "src", "a.cs"] (.file "#if NEW".toUTF8 false)) := by
  refine Disk.lookup_of_leads ["".toList, "w".toList, "src".toList, "a.cs".toList] (by decide) rfl ?_
  exact .silent (.inl rfl) (.directory (by decide) rfl
    (.directory (by decide) rfl (.file (by decide) rfl)))

theorem namedRoot_draft : (draft config added).namedRoot "/w" = .ok ⟨"/w"⟩ :=
  Machine.namedRoot_of_place (by decide) (by decide) (by decide) (find_root_draft config added)

theorem openAt_draft : Project.openAt (draft config added) "/w" = .ok ⟨draftLayout, config⟩ :=
  Project.openAt_of_find (namedRoot_draft config added) (find_config_draft config added)

/-- An unscanned draft is handed over as it is. -/
theorem handover_draft {spawn : Spawn} {config : Config} {added : List (Place × Entry)}
    {asked : Option String} {backend : Backend (StateM Machine)}
    (hselect : Command.selectBackend
      (Backend.all spawn (Project.mk draftLayout config).compiler?)
      (Config.backendName asked (some config)) = .ok backend) :
    Effect.handover spawn "/w" asked true (draft config added) =
      (.ok ⟨draftLayout, backend, config.session, (Project.mk draftLayout config).outputDirectory⟩,
        draft config added) := by
  rw [Effect.handover_of_openAt (openAt_draft config added)]
  simp only [Project.handover, hselect, Except.map]

theorem scanContent_draft : Scan.scanContent "#if NEW".toUTF8 = .ofList ["NEW"] := by
  have htext : Text.lossy "#if NEW".toUTF8 = "#if NEW".toList := by cbv
  have hlines : Text.lines (Scan.dropMark "#if NEW".toList) = ["#if NEW".toList] := by decide
  have hnames : Scan.lineSymbols "#if NEW".toList = ["NEW"] := by decide +kernel
  rw [Scan.scanContent, htext, Scan.scanText, hlines]
  simp only [List.foldl_cons, List.foldl_nil, hnames]
  rfl

theorem scanFiles_source {m : Machine} {place : Place} {executable : Bool}
    (hsource : m.find ⟨"/w/src/a.cs"⟩ =
      .ok (.found place (.file "#if NEW".toUTF8 executable))) :
    m.scanFiles [⟨"/w/src/a.cs"⟩] = .ok (.ofList ["NEW"]) := by
  have hscan := Machine.scanFile_of_readBytes (Machine.readBytes_of_find hsource)
  rw [scanContent_draft] at hscan
  simp only [Machine.scanFiles, Machine.scanFilesFrom, hscan]
  rfl

/-- The session that the draft's sources make. -/
def draftSession : Session :=
  { Session.empty with sources := PathSet.empty.insert ⟨"/w/src/a.cs"⟩ }

/-- The configuration with that session; the binary goes next to the source. -/
def draftConfig : Config :=
  { (Config.new "demo").withSession draftSession with outputDirectory := "src" }

/-- The inputs of the draft are there as long as its source is. -/
theorem clean_of_source {m : Machine} (hfile : m.isFile ⟨"/w/src/a.cs"⟩ = true)
    (symbols : SymbolSet) (directory : Path) :
    (DryRun.outcome m
      ((draftSession.withSymbols symbols).descriptor directory)).hasErrors = false := by
  have hsources : draftSession.sources.toList = [⟨"/w/src/a.cs"⟩] := rfl
  have hreferences : draftSession.references.toList = [] := rfl
  simp [DryRun.outcome, DryRun.missingReferences, DryRun.missingSources, DryRun.noSources,
    Session.descriptor, Session.withSymbols, hsources, hreferences, hfile]

theorem rescan_draft : draftSession.rescan (draft config added) =
    .ok (draftSession.withSymbols (.ofList ["NEW"])) :=
  Session.rescan_eq_ok_iff.mpr ⟨_, scanFiles_source (find_source_draft config added), rfl⟩

/-- The draft is scanned and then checked, and it ends like a draft that is checked alone. -/
theorem build_after_scan_draft :
    let m := draft draftConfig []
    let scanned := (Request.scan "/w" false).run .idle m
    let resumed := (Request.build "/w" (some "dry-run") true true).run ⟨Host.idle.spawn, "late"⟩
      scanned.machine
    let alone := (Request.build "/w" (some "dry-run") false true).run ⟨Host.idle.spawn, "soon"⟩ m
    scanned.result = .ok () ∧
    scanned.printed = (draftSession.withSymbols (.ofList ["NEW"])).shownScan false ∧
    Report.SameButTime draftLayout.stampPath "soon" "late" alone resumed := by
  intro m scanned resumed alone
  have hopen := openAt_draft draftConfig []
  have hrescan := rescan_draft draftConfig []
  have hscan : scanned.result = .ok () := Request.scan_of_rescan hopen hrescan
  obtain ⟨project, session, hopen', hrescan', hprinted, -, -, hsame, -, -⟩ :=
    build_after_scan .idle Host.idle.spawn "soon" "late" m "/w" (some "dry-run") false true hscan
  obtain rfl : Project.mk draftLayout draftConfig = project :=
    Except.ok.inj (hopen.symm.trans hopen')
  obtain rfl : draftSession.withSymbols (.ofList ["NEW"]) = session :=
    Except.ok.inj (hrescan.symm.trans hrescan')
  exact ⟨hscan, hprinted, hsame⟩

/-- The place of the draft's stamp. -/
def draftStamp : Place := ["w", ".dll-forge", "last_build.json"]

/-- A link in the place of the stamp that leads to the configuration. -/
def linkedStamp : List (Place × Entry) := [(draftStamp, .link ⟨"project.json"⟩)]

theorem find_linkedStamp : (draft config linkedStamp).find draftLayout.stampPath =
    .ok (.found draftPlace (.file config.toJson.pretty.toUTF8 false)) := by
  refine Disk.lookup_of_leads
    ["".toList, "w".toList, ".dll-forge".toList, "last_build.json".toList] (by decide) rfl ?_
  refine .silent (.inl rfl) (.directory (by decide) rfl (.directory (by decide) rfl ?_))
  exact .linked (by decide) rfl rfl (.file (by decide) rfl)

/-- A configuration that the stamp's path leads to is left with the time of the build, so it is not
the same when the project is scanned first. -/
theorem linked_stamp_dates_config :
    let m := draft draftConfig linkedStamp
    let scanned := (Request.scan "/w" false).run .idle m
    let resumed := (Request.build "/w" (some "dry-run") true true).run ⟨Host.idle.spawn, "late"⟩
      scanned.machine
    let alone := (Request.build "/w" (some "dry-run") false true).run ⟨Host.idle.spawn, "soon"⟩ m
    scanned.result = .ok () ∧ resumed.result = .ok () ∧ alone.result = .ok () ∧
    ∃ first second, alone.machine.readText draftLayout.configPath = .ok first ∧
      resumed.machine.readText draftLayout.configPath = .ok second ∧ second ≠ first := by
  intro m scanned resumed alone
  let project : Project := ⟨draftLayout, draftConfig⟩
  let session := draftSession.withSymbols (.ofList ["NEW"])
  have hopen : Project.openAt m "/w" = .ok project := openAt_draft draftConfig linkedStamp
  have hrescan : project.config.session.rescan m = .ok session :=
    rescan_draft draftConfig linkedStamp
  have hscan : scanned.result = .ok () := Request.scan_of_rescan hopen hrescan
  obtain ⟨_, _, hopen', hrescan', hsave, -⟩ := Request.run_scan hscan
  cases hopen.symm.trans hopen'
  cases hrescan.symm.trans hrescan'
  obtain ⟨after, hsaved, hwrites⟩ := Effect.save_of_find (project.withSession session)
    (find_config_draft draftConfig linkedStamp)
  obtain rfl : scanned.machine = after := (Prod.mk.inj (hsave.symm.trans hsaved)).2
  have hstamp := Machine.find_found_of_keeps hwrites.setting hwrites.keeps
    (find_linkedStamp draftConfig) hwrites.at?_place
  have hinputs : (DryRun.outcome scanned.machine ((project.withSession
      session).config.session.descriptor (project.withSession session).outputDirectory)).hasErrors =
      false :=
    clean_of_source (Machine.isFile_of_find
      (hwrites.find_other (find_source_draft draftConfig linkedStamp) (by decide))) _ _
  have hstamped : ∀ host, ∃ stamp : Stamp, stamp.refreshedAt = host.now ∧
      ((Request.build "/w" (some "dry-run") true true).run host scanned.machine).result = .ok () ∧
      ((Request.build "/w" (some "dry-run") true true).run host
        scanned.machine).machine.readText draftLayout.configPath = .ok stamp.toJson.pretty := by
    intro host
    obtain ⟨hresult, stamp, htime, hbuilt⟩ := Request.run_build_dryRun host "/w" true
      (Effect.openAt_of_save hopen hsave) hwrites.find_written hstamp hinputs
    exact ⟨stamp, htime, hresult, Machine.readText_of_find (Machine.find_found_of_keeps
      hbuilt.setting hbuilt.keeps hwrites.find_written hbuilt.at?_place)⟩
  have halone : alone = (Request.build "/w" (some "dry-run") true true).run
      ⟨Host.idle.spawn, "soon"⟩ scanned.machine :=
    Request.run_build_of_rescan hopen hrescan hsave
  obtain ⟨soon, hsoon, hfirst, hread⟩ := hstamped ⟨Host.idle.spawn, "soon"⟩
  obtain ⟨late, hlate, hsecond, hreread⟩ := hstamped ⟨Host.idle.spawn, "late"⟩
  rw [halone]
  refine ⟨hscan, hsecond, hfirst, _, _, hread, hreread, fun hsame => ?_⟩
  have hstamps := late.decode_pretty
  rw [hsame, soon.decode_pretty] at hstamps
  cases hstamps
  exact absurd (hsoon.symm.trans hlate) (by decide)

end Draft

end ScriptAssembly
