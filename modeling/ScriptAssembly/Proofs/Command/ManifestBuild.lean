import ScriptAssembly.Proofs.Command.Failure
import ScriptAssembly.Proofs.Command.Retelling

/-!
# Building a manifest and building its project

A manifest and a project that was told the same hand over the same.  They are built with the same
result as well, unless the compiler looks into the configuration: a build of the project has saved
the scanned symbols there by the time the compiler runs, and a build of the manifest saves nothing.
-/

namespace ScriptAssembly

/-- The reports of two builds tell the same: the same has been printed, and either the results are
the same or both are failures. -/
structure Report.Agrees (first second : Report) : Prop where
  /-- The same has been printed. -/
  printed : second.printed = first.printed
  /-- The results are the same, or both are failures. -/
  result : second.result = first.result ∨
    (∃ e, first.result = .error e) ∧ ∃ e, second.result = .error e

/-- A result that is told is told in the same words wherever it comes from. -/
theorem Handover.report_agrees {now later : String} {json : Bool} {before : String}
    {handed : Handover} {m other : Machine}
    (hsame : (((handed.run later).run).run other).1 = (((handed.run now).run).run m).1) :
    Report.Agrees (handed.report now json before m) (handed.report later json before other) := by
  unfold report
  generalize ((handed.run now).run).run m = first at hsame ⊢
  generalize ((handed.run later).run).run other = second at hsame ⊢
  obtain ⟨e | result, after⟩ := first <;> obtain ⟨e' | result', after'⟩ := second <;> cases hsame
  · exact ⟨rfl, .inl rfl⟩
  · exact ⟨rfl, .inl rfl⟩

theorem Handover.result_report {now : String} {json : Bool} {before : String} {handed : Handover}
    {m : Machine} {result : BuildResult} (hrun : (((handed.run now).run).run m).1 = .ok result) :
    (handed.report now json before m).result = result.verdict := by
  unfold report
  generalize ((handed.run now).run).run m = ran at hrun ⊢
  obtain ⟨built, after⟩ := ran
  cases hrun
  rfl

/-- What is handed over is built with the same result at all times and on all machines that a
compiler could tell apart only by files that it does not look into. -/
theorem Handover.run_congr {spawn : Spawn} {configured : Option Path} {name : String}
    {handed : Handover} {hidden : Place → Prop} {m other : Machine}
    (hspawn : name ≠ "dry-run" → spawn.Ignores hidden)
    (hbackend : Backend.named? (Backend.all spawn configured) name = some handed.backend)
    (hsame : m.SameApart hidden other) (now later : String) :
    (((handed.run later).run).run m).1 = (((handed.run now).run).run other).1 := by
  obtain ⟨hplaces, -⟩ := coupled_runner hspawn hbackend handed.layout.stampPath now
    handed.descriptor m other hsame
  obtain ⟨htimes, -⟩ := run_runner_congr handed.backend handed.layout.stampPath now later
    handed.descriptor m
  exact htimes.trans hplaces.symm

namespace Manifest

variable {manifest : Manifest} {spawn : Spawn} {m : Machine} {base : Path} {config : Config}
  {root : String} {asked : Option String}

theorem handover_of_select_error {e : CommandError}
    (hselect : Command.selectBackend (Backend.all spawn none)
      ((asked <|> manifest.backend).getD Backend.defaultName) = .error e) :
    manifest.handover spawn m base asked = .error e := by
  simp only [handover, hselect]
  rfl

/-- The project that was told what the manifest says hands over what the manifest does, or both fail
to.  Handing over changes at most what the configuration holds, and that only if there is a scan. -/
theorem handover_cases (hbase : base.isAbsolute) (hconfigures : manifest.Configures base config)
    (hopen : Project.openAt m root =
      .ok ⟨⟨base⟩, config.withSession (manifest.toSession m base)⟩) :
    (∃ e after e', Effect.handover spawn root asked (!manifest.scan) m = (.error e, after) ∧
      manifest.handover spawn m base asked = .error e') ∨
    ∃ handed ready, Effect.handover spawn root asked (!manifest.scan) m = (.ok handed, ready) ∧
      manifest.handover spawn m base asked = .ok handed ∧
      Backend.named? (Backend.all spawn none)
        ((asked <|> manifest.backend).getD Backend.defaultName) = some handed.backend ∧
      (ready = m ∨ manifest.scan = true ∧ ∃ place content executable,
        m.find (Layout.mk base).configPath = .ok (.found place (.file content executable)) ∧
        m.SameApart (· = place) ready) := by
  have hscan : (if !manifest.scan then none else some (Session.rescan m)) =
      if manifest.scan then some (Session.rescan m) else none := by
    cases manifest.scan <;> rfl
  have hsession : (config.withSession (manifest.toSession m base)).session =
      manifest.toSession m base := rfl
  have hcases := @Effect.ready_cases_of_openAt (!manifest.scan) _ _ _ hopen
  simp only [hscan, hsession] at hcases
  rw [Effect.handover_eq_of_openAt hopen]
  rcases hcases with ⟨e, hscanned, hready⟩ | ⟨session, after, hscanned, hready, hafter⟩
  · left
    rw [hready]
    cases hselect : Command.selectBackend (Backend.all spawn none)
        ((asked <|> manifest.backend).getD Backend.defaultName) with
    | error e' => exact ⟨_, _, _, rfl, handover_of_select_error hselect⟩
    | ok backend =>
        rw [handover_of_select hselect, hscanned]
        exact ⟨_, _, _, rfl, rfl⟩
  · have hproject : ((Project.mk ⟨base⟩
        (config.withSession (manifest.toSession m base))).withSession session).handover spawn asked =
        _ := hconfigures.handover hbase spawn asked session
    rw [hready]
    dsimp only
    rw [hproject]
    cases hselect : Command.selectBackend (Backend.all spawn none)
        ((asked <|> manifest.backend).getD Backend.defaultName) with
    | error e => exact .inl ⟨_, _, _, rfl, handover_of_select_error hselect⟩
    | ok backend =>
        right
        rw [handover_of_select hselect, hscanned]
        refine ⟨_, _, rfl, rfl, Command.named?_of_selectBackend hselect, hafter.imp id ?_⟩
        rintro ⟨hscans, hsaved⟩
        exact ⟨by simpa using hscans, hsaved⟩

theorem named_outputName (hflaw : manifest.flaw? = none) :
    Text.trim manifest.outputName.toList ≠ [] := by
  intro hblank
  simp only [flaw?, hblank, if_true] at hflaw
  cases hflaw

/-- On the machine stands a project that is configured as the manifest asks and that the requests
are about to tell what the manifest says. -/
structure ToldTo (manifest : Manifest) (requests : List Request) (start : Machine) (base : Path)
    (config : Config) : Prop where
  /-- The project has the configuration. -/
  load : Project.load start base = .ok ⟨⟨base⟩, config⟩
  /-- The configuration says what the manifest says. -/
  configures : manifest.Configures base config
  /-- The manifest is fit to build. -/
  fit : manifest.flaw? = none
  /-- The requests say the rest. -/
  retold : manifest.RetoldBy requests
  /-- Each request names the project. -/
  named : ∀ request ∈ requests, ∃ name, request.sessionRoot? = some name ∧
    start.namedRoot name = .ok base
  /-- The references are files. -/
  isFile : ∀ path ∈ manifest.references, start.isFile (base.join ⟨path⟩)

theorem ToldTo.sound {requests : List Request} (htold : manifest.ToldTo requests m base config) :
    ∀ request ∈ requests, request.Sound m base := by
  intro request hmem
  refine ⟨htold.retold.picks request hmem, htold.named request hmem, fun path hpath => ?_,
    fun name executable houtput => ?_⟩
  · refine htold.isFile path ?_
    rw [← htold.retold.references]
    exact List.mem_filterMap.mpr ⟨request, hmem, hpath⟩
  · have hgiven : (some name, executable) ∈ requests.filterMap Request.output? :=
      List.mem_filterMap.mpr ⟨request, hmem, houtput⟩
    simp only [htold.retold.output, List.mem_singleton, Prod.mk.injEq, Option.some.injEq] at hgiven
    rw [hgiven.1]
    exact named_outputName htold.fit

/-- Once the requests have been run, the project has the session of the manifest, and nothing but
its configuration has changed. -/
theorem ToldTo.runAll {requests : List Request} {start : Machine}
    (htold : manifest.ToldTo requests start base config) (host : Host) :
    ∃ m place content executable, Request.runAll host start requests = .ok m ∧
      start.find (Layout.mk base).configPath = .ok (.found place (.file content executable)) ∧
      start.SameApart (· = place) m ∧
      let config' := config.withSession (manifest.toSession start base)
      Project.load m base = .ok ⟨⟨base⟩, config'⟩ ∧
      m.readText (Layout.mk base).configPath = .ok config'.toJson.pretty := by
  obtain ⟨place, content, executable, hconfig⟩ := Project.find_configPath_of_load htold.load
  obtain ⟨m, hrun, hsame, hloaded, hwritten⟩ := @Request.runAll_of_sound host _ _ _ _ _ _ _ _
    htold.sound hconfig (.refl _ start) htold.load
  have hsession : config.session.picking start ⟨base⟩ (.ofExtension config.sourceExtension)
      requests = manifest.toSession start base := by
    rw [htold.configures.session, htold.configures.collector, picking_of_retoldBy htold.retold]
  have hsome : requests ≠ [] := by
    rintro rfl
    cases htold.retold.output
  rw [hsession] at hloaded hwritten
  exact ⟨m, place, content, executable, hrun, hconfig, hsame, hloaded, hwritten hsome⟩

end Manifest

/-- Where both hand over the same, the build of the project and that of the manifest agree if the
compiler does not look at what handing over has changed. -/
theorem Manifest.report_agrees {manifest : Manifest} {spawn : Spawn} {m : Machine} {base : Path}
    {config : Config} {root path : String} {asked : Option String} (hbase : base.isAbsolute)
    (hconfigures : manifest.Configures base config)
    (hopen : Project.openAt m root = .ok ⟨⟨base⟩, config.withSession (manifest.toSession m base)⟩)
    (hdescribed : handoverAt spawn path asked m = manifest.handover spawn m base asked)
    {place : Place} {content : ByteArray} {executable : Bool}
    (hconfig : m.find (Layout.mk base).configPath = .ok (.found place (.file content executable)))
    (hspawn : manifest.scan = true →
      (asked <|> manifest.backend).getD Backend.defaultName ≠ "dry-run" →
      spawn.Ignores (· = place)) (now later : String) :
    (∀ handed, handoverAt spawn path asked m = .ok handed →
      (((handed.run later).run).run m).1 = (((handed.run now).run).run
        (Effect.handover spawn root asked (!manifest.scan) m).2).1) ∧
    Report.Agrees ((Request.build root asked (!manifest.scan) true).run ⟨spawn, now⟩ m)
      ((Request.buildManifest path asked true).run ⟨spawn, later⟩ m) := by
  have hbuild := Request.run_build ⟨spawn, now⟩ root asked (!manifest.scan) true m
  have hdescribe := Request.run_buildManifest ⟨spawn, later⟩ path asked true m
  rw [hdescribed]
  rcases @handover_cases manifest spawn m base config root asked hbase hconfigures hopen with
    ⟨e, after, e', hbuilding, hfails⟩ | ⟨handed, ready, hbuilding, hhanded, hbackend, hready⟩
  · simp only [hbuilding] at hbuild
    simp only [hdescribed, hfails] at hdescribe
    rw [hbuild, hdescribe, hfails]
    refine ⟨fun handed hhanded => ?_, rfl, .inr ⟨⟨e, rfl⟩, e', rfl⟩⟩
    cases hhanded
  · simp only [hbuilding] at hbuild
    simp only [hdescribed, hhanded, if_true] at hdescribe
    have hresult : (((handed.run later).run).run m).1 = (((handed.run now).run).run ready).1 := by
      rcases hready with rfl | ⟨hscan, known, old, mode, hknown, hsame⟩
      · exact (run_runner_congr handed.backend handed.layout.stampPath now later handed.descriptor
          ready).1
      · rw [hconfig] at hknown
        cases hknown
        exact Handover.run_congr (hspawn hscan) hbackend hsame now later
    rw [hbuild, hdescribe, hhanded, hbuilding]
    refine ⟨fun other hother => ?_, Handover.report_agrees hresult⟩
    cases hother
    exact hresult

/-- A project that has been told what a manifest says, request by request and in any order that
keeps the references and the folders in theirs, is built like the manifest: the backend has the same
name and is handed the same, or neither is handed anything, and the results agree unless there is a
scan and the compiler looks at what the configuration holds. -/
theorem buildManifest_agrees (host : Host) (spawn : Spawn) (now later : String) (start : Machine)
    (base : Path) (config : Config) (manifest : Manifest) (requests : List Request) (root : String)
    (asked : Option String) (htold : manifest.ToldTo requests start base config)
    (hroot : start.namedRoot root = .ok base) :
    ∃ m, Request.runAll host start requests = .ok m ∧
      ∀ path, Manifest.load m (m.identity ⟨path⟩) = .ok manifest →
        (m.identity ⟨path⟩).parent?.getD ⟨""⟩ = base →
        let name := (asked <|> manifest.backend).getD Backend.defaultName
        let building := Effect.handover spawn root asked (!manifest.scan) m
        let described := Manifest.handoverAt spawn path asked m
        (∃ project, Project.openAt m root = .ok project ∧
          Config.backendName asked (some project.config) = name) ∧
        ((∃ e e', building.1 = .error e ∧ described = .error e') ∨
          ∃ handed, building.1 = .ok handed ∧ described = .ok handed ∧
            handed.backend.name = name) ∧
        ∀ place content executable,
          m.find (Layout.mk base).configPath = .ok (.found place (.file content executable)) →
          (manifest.scan = true → name ≠ "dry-run" → spawn.Ignores (· = place)) →
          (∀ handed, described = .ok handed → (((handed.run later).run).run m).1 =
            (((handed.run now).run).run building.2).1) ∧
          Report.Agrees
            ((Request.build root asked (!manifest.scan) true).run ⟨spawn, now⟩ m)
            ((Request.buildManifest path asked true).run ⟨spawn, later⟩ m) := by
  have hbase := Machine.isAbsolute_of_namedRoot hroot
  obtain ⟨m, place, content, executable, hrun, -, hsame, hloaded, -⟩ := htold.runAll host
  rw [← manifest.toSession_congr hsame.alike] at hloaded
  have hopen : Project.openAt m root =
      .ok ⟨⟨base⟩, config.withSession (manifest.toSession m base)⟩ :=
    Project.openAt_eq_ok_iff.mpr ⟨base, (hsame.alike.namedRoot root).trans hroot, hloaded⟩
  refine ⟨m, hrun, fun path hmanifest hparent => ?_⟩
  have hdescribed : Manifest.handoverAt spawn path asked m =
      manifest.handover spawn m base asked := by
    rw [Manifest.handoverAt_of_load hmanifest, hparent]
  intro name building described
  refine ⟨⟨_, hopen, htold.configures.name asked⟩, ?_,
    fun place content executable hconfig hspawn => Manifest.report_agrees hbase htold.configures
      hopen hdescribed hconfig hspawn now later⟩
  rcases Manifest.handover_cases hbase htold.configures hopen with
    ⟨e, after, e', hbuilding, hfails⟩ | ⟨handed, ready, hbuilding, hhanded, hbackend, -⟩
  · exact .inl ⟨e, e', congrArg Prod.fst hbuilding, hdescribed.trans hfails⟩
  · exact .inr ⟨handed, congrArg Prod.fst hbuilding, hdescribed.trans hhanded,
      Backend.name_of_named? hbackend⟩

section Draft

/-- A manifest that gives a symbol and has its sources scanned for others. -/
def draftManifest : Manifest :=
  { Manifest.empty with
    outputDirectory := some "src"
    references := ["csc"]
    folders := ["src"]
    symbols := some "OLD" }

/-- Requests that retell the manifest. -/
def draftRequests : List Request :=
  [.addFolder "/w" "src", .setSymbols "/w" "OLD", .addReference "/w" "csc",
    .setOutput "/w" (some Session.defaultOutputName) (some false)]

/-- A configuration for the manifest. -/
def blankConfig : Config := { Config.new "demo" with outputDirectory := "src" }

/-- The draft with the manifest beside its project. -/
def describedDraft : Machine :=
  draft blankConfig [(["w", "build.json"], .file draftManifest.toJson.pretty.toUTF8 false)]

theorem namedRoot_described : describedDraft.namedRoot "/w" = .ok ⟨"/w"⟩ := namedRoot_draft _ _

theorem toldTo_draft : draftManifest.ToldTo draftRequests describedDraft ⟨"/w"⟩ blankConfig where
  load := by
    obtain ⟨root, hroot, hload⟩ := Project.openAt_eq_ok_iff.mp (openAt_draft blankConfig
      [(["w", "build.json"], .file draftManifest.toJson.pretty.toUTF8 false)])
    cases namedRoot_described.symm.trans hroot
    exact hload
  configures := ⟨rfl, rfl, rfl, rfl, rfl⟩
  fit := by decide
  retold := ⟨by decide, rfl, rfl, rfl, .inl rfl⟩
  named := by
    simp only [draftRequests, List.mem_cons, List.not_mem_nil, or_false]
    rintro request (rfl | rfl | rfl | rfl) <;> exact ⟨"/w", rfl, namedRoot_described⟩
  isFile := by
    simp only [draftManifest, List.mem_singleton]
    rintro path rfl
    have hfind : describedDraft.find ⟨"/w/csc"⟩ =
        .ok (.found ["w", "csc"] (.file .empty true)) := by
      refine Disk.lookup_of_leads ["".toList, "w".toList, "csc".toList] (by decide) rfl ?_
      exact .silent (.inl rfl) (.directory (by decide) rfl (.file (by decide) rfl))
    have hjoin : (Path.mk "/w").join ⟨"csc"⟩ = ⟨"/w/csc"⟩ := by decide
    rw [hjoin]
    exact Machine.isFile_of_find hfind

/-- The manifest goes on being there while the configuration is written. -/
theorem load_described {m : Machine} (hsame : describedDraft.SameApart (· = draftPlace) m) :
    Manifest.load m (m.identity ⟨"/w/build.json"⟩) = .ok draftManifest ∧
      (m.identity ⟨"/w/build.json"⟩).parent?.getD ⟨""⟩ = ⟨"/w"⟩ := by
  have hfind : describedDraft.find ⟨"/w/build.json"⟩ = .ok (.found ["w", "build.json"]
      (.file draftManifest.toJson.pretty.toUTF8 false)) := by
    refine Disk.lookup_of_leads ["".toList, "w".toList, "build.json".toList] (by decide) rfl ?_
    exact .silent (.inl rfl) (.directory (by decide) rfl (.file (by decide) rfl))
  have hfind := hsame.find_seen hfind (by decide)
  have hidentity : m.identity ⟨"/w/build.json"⟩ = ⟨"/w/build.json"⟩ :=
    Machine.identity_of_place (by decide) (by decide) hfind
  rw [hidentity]
  exact ⟨Manifest.load_pretty (Machine.readText_of_find hfind) (by decide) rfl, by decide⟩

/-- The session of the manifest. -/
def describedSession : Session := draftManifest.toSession describedDraft ⟨"/w"⟩

theorem runAll_described : ∃ m, Request.runAll .idle describedDraft draftRequests = .ok m ∧
    describedDraft.SameApart (· = draftPlace) m ∧
    m.readText draftLayout.configPath =
      .ok (blankConfig.withSession describedSession).toJson.pretty := by
  obtain ⟨m, place, content, executable, hrun, hconfig, hsame, -, hread⟩ := toldTo_draft.runAll .idle
  obtain rfl : draftPlace = place := by
    have hfound := (find_config_draft blankConfig _).symm.trans hconfig
    simp only [Except.ok.injEq, Spot.found.injEq] at hfound
    exact hfound.1
  exact ⟨m, hrun, hsame, hread⟩

/-- The draft is built like its manifest by a compiler that reads nothing. -/
theorem buildManifest_agrees_draft :
    draftManifest.ToldTo draftRequests describedDraft ⟨"/w"⟩ blankConfig ∧
    describedDraft.namedRoot "/w" = .ok ⟨"/w"⟩ ∧
    ∃ m, Request.runAll .idle describedDraft draftRequests = .ok m ∧
      Manifest.load m (m.identity ⟨"/w/build.json"⟩) = .ok draftManifest ∧
      (m.identity ⟨"/w/build.json"⟩).parent?.getD ⟨""⟩ = ⟨"/w"⟩ ∧
      Report.Agrees ((Request.build "/w" none false true).run ⟨Host.idle.spawn, "soon"⟩ m)
        ((Request.buildManifest "/w/build.json" none true).run ⟨Host.idle.spawn, "late"⟩ m) := by
  have hidle : Host.idle.spawn.Ignores (· = draftPlace) := fun _ _ _ _ hsame =>
    ⟨rfl, hsame.alike⟩
  obtain ⟨m, hrun, hagree⟩ := buildManifest_agrees .idle Host.idle.spawn "soon" "late"
    describedDraft ⟨"/w"⟩ blankConfig draftManifest draftRequests "/w" none toldTo_draft
    namedRoot_described
  obtain ⟨m', hagain, hsame, -⟩ := runAll_described
  obtain rfl : m' = m := Except.ok.inj (hagain.symm.trans hrun)
  obtain ⟨held, hheld⟩ := hsame.alike.find_file (find_config_draft blankConfig _)
  obtain ⟨hmanifest, hparent⟩ := load_described hsame
  obtain ⟨-, -, hreports⟩ := hagree "/w/build.json" hmanifest hparent
  refine ⟨toldTo_draft, namedRoot_described, m', hrun, hmanifest, hparent, ?_⟩
  exact (hreports draftPlace held false hheld fun _ _ => hidle).2

theorem collect_described :
    draftManifest.collector.collect describedDraft ⟨"/w/src"⟩ = [⟨"/w/src/a.cs"⟩] := by
  have hcollector : draftManifest.collector = ⟨"cs", false⟩ := by decide
  rw [hcollector]
  exact collect_draft _ _ rfl

theorem sources_described : describedSession.sources.toList = [⟨"/w/src/a.cs"⟩] := by
  have hidentity : describedDraft.identity ⟨"/w/src"⟩ = ⟨"/w/src"⟩ := identity_src_draft _ _
  have hresolve : (Layout.mk ⟨"/w"⟩).resolve ⟨"src"⟩ = ⟨"/w/src"⟩ := by decide
  have hfolders : draftManifest.retelling.filterMap Request.folder? = ["src"] := rfl
  have hpicked := @picked_picking describedDraft ⟨⟨"/w"⟩⟩ draftManifest.collector .empty
    draftManifest.retelling draftManifest.retoldBy_retelling.picks
  rw [Manifest.picking_retelling, hfolders, List.foldl_cons, List.foldl_nil, hresolve,
    Collector.pick, hidentity, collect_described] at hpicked
  have hsources := congrArg (fun picked => picked.2.toList) hpicked
  exact hsources.trans (by decide)

/-- The session of the manifest once its sources have been scanned. -/
def rescannedSession : Session := describedSession.withSymbols (.ofList ["NEW"])

theorem rescan_described {m : Machine} (hsame : describedDraft.SameApart (· = draftPlace) m) :
    describedSession.rescan m = .ok rescannedSession := by
  have hsource := hsame.find_seen (find_source_draft blankConfig _) (by decide)
  refine Session.rescan_eq_ok_iff.mpr ⟨.ofList ["NEW"], ?_, rfl⟩
  rw [sources_described]
  exact scanFiles_source hsource

theorem pretty_rescanned_ne : (blankConfig.withSession rescannedSession).toJson.pretty ≠
    (blankConfig.withSession describedSession).toJson.pretty := by
  intro hsame
  have hold := @Manifest.symbols_picking_of_retoldBy _ describedDraft _
    draftManifest.retoldBy_retelling ⟨⟨"/w"⟩⟩ draftManifest.collector
  rw [Manifest.picking_retelling] at hold
  have hsymbols : (SymbolSet.ofList ["NEW"]).toList = (SymbolSet.parse "OLD").toList :=
    (congrArg (fun c => c.session.symbols.toList) (Config.eq_of_pretty_eq hsame)).trans
      (congrArg SymbolSet.toList hold)
  exact absurd hsymbols (by decide)

theorem outputName_rescanned : rescannedSession.outputName = Session.defaultOutputName := by
  have houtput := @output_picking describedDraft ⟨⟨"/w"⟩⟩ draftManifest.collector .empty
    draftManifest.retelling draftManifest.retoldBy_retelling.picks
  rw [Manifest.picking_retelling] at houtput
  exact congrArg Prod.fst houtput

theorem find_stamp_described :
    describedDraft.find draftLayout.stampPath = .ok (.vacant draftStamp false) :=
  lookup_stamp_of_free _ _ true rfl

/-- What the project and the manifest hand over. -/
def describedHandover (spawn : Spawn) : Handover :=
  ⟨draftLayout, Compiler.backend spawn none, rescannedSession, draftProject.outputDirectory⟩

theorem handoverAt_described {m : Machine} (hsame : describedDraft.SameApart (· = draftPlace) m)
    (spawn : Spawn) :
    Manifest.handoverAt spawn "/w/build.json" none m = .ok (describedHandover spawn) := by
  obtain ⟨hmanifest, hbase⟩ := load_described hsame
  have hselect : Command.selectBackend (Backend.all spawn none)
      ((none <|> draftManifest.backend).getD Backend.defaultName) =
      .ok (Compiler.backend spawn none) := rfl
  have hscanned : (draftManifest.toSession m ⟨"/w"⟩).scanned
      (if draftManifest.scan then some (Session.rescan m) else none) = .ok rescannedSession := by
    rw [draftManifest.toSession_congr hsame.alike]
    exact rescan_described hsame
  rw [Manifest.handoverAt_of_load hmanifest, hbase, Manifest.handover_of_select hselect, hscanned]
  rfl

theorem handover_described {m : Machine} (hsame : describedDraft.SameApart (· = draftPlace) m)
    (hread : m.readText draftLayout.configPath =
      .ok (blankConfig.withSession describedSession).toJson.pretty) (spawn : Spawn) :
    ∃ after, Effect.handover spawn "/w" none false m = (.ok (describedHandover spawn), after) ∧
      describedDraft.Alike after ∧ after.readText draftLayout.configPath =
        .ok (blankConfig.withSession rescannedSession).toJson.pretty := by
  let project : Project := ⟨draftLayout, blankConfig.withSession describedSession⟩
  have hopen : Project.openAt m "/w" = .ok project :=
    Project.openAt_eq_ok_iff.mpr ⟨⟨"/w"⟩, (hsame.alike.namedRoot "/w").trans namedRoot_described,
      Project.load_of_readText hread⟩
  obtain ⟨held, hconfig⟩ := hsame.alike.find_file (find_config_draft blankConfig _)
  obtain ⟨after, hsave, hwrites⟩ :=
    Effect.save_of_find (project.withSession rescannedSession) hconfig
  have hselect : (project.withSession rescannedSession).handover spawn none =
      .ok (describedHandover spawn) := rfl
  refine ⟨after, ?_, hsame.alike.trans (hwrites.alike hconfig),
    Machine.readText_of_find hwrites.find_written⟩
  rw [Effect.handover_of_rescan hopen (rescan_described hsame) hsave, hselect]

/-- A compiler that looks at the configuration finds the scanned symbols in it when the project is
built, and those of the manifest when the manifest is built; then one build fails and the other does
not, although both hand over the same. -/
theorem buildManifest_sees_unsaved :
    draftManifest.ToldTo draftRequests describedDraft ⟨"/w"⟩ blankConfig ∧
    describedDraft.namedRoot "/w" = .ok ⟨"/w"⟩ ∧ blankConfig.sourceExtension ≠ "json" ∧
    ∃ m, Request.runAll .idle describedDraft draftRequests = .ok m ∧
      Manifest.load m (m.identity ⟨"/w/build.json"⟩) = .ok draftManifest ∧
      (m.identity ⟨"/w/build.json"⟩).parent?.getD ⟨""⟩ = ⟨"/w"⟩ ∧
      let host : Host :=
        ⟨.reading (blankConfig.withSession describedSession).toJson.pretty, "now"⟩
      ((Request.build "/w" none (!draftManifest.scan) true).run host m).result =
        .error (.buildFailed 1) ∧
      ((Request.buildManifest "/w/build.json" none true).run host m).result = .ok () := by
  obtain ⟨m, hrun, hsame, hread⟩ := runAll_described
  obtain ⟨hmanifest, hbase⟩ := load_described hsame
  refine ⟨toldTo_draft, namedRoot_described, by decide, m, hrun, hmanifest, hbase, ?_⟩
  intro host
  have hparent := parent?_outputPath_draft outputName_rescanned
  constructor
  · obtain ⟨after, hhanded, halike, hsaved⟩ := handover_described hsame hread host.spawn
    have hbuilt := @run_runner_reading _ _ _ (blankConfig.withSession describedSession).toJson.pretty
      _ _ halike hparent hsaved find_stamp_described host.now
    rw [if_neg pretty_rescanned_ne] at hbuilt
    have hbuild := Request.run_build host "/w" none false true m
    simp only [hhanded] at hbuild
    have hresult : ((((describedHandover host.spawn).run host.now).run).run after).1 =
        .ok (.failure wordless) := hbuilt
    exact (congrArg Report.result hbuild).trans (Handover.result_report hresult)
  · have hbuilt := @run_runner_reading _ _ _ (blankConfig.withSession describedSession).toJson.pretty
      _ _ hsame.alike hparent hread find_stamp_described host.now
    rw [if_pos rfl] at hbuilt
    have hbuild := Request.run_buildManifest host "/w/build.json" none true m
    simp only [handoverAt_described hsame host.spawn] at hbuild
    have hresult : ((((describedHandover host.spawn).run host.now).run).run m).1 =
        .ok (.success (describedHandover host.spawn).descriptor.outputPath) := hbuilt
    exact (congrArg Report.result hbuild).trans (Handover.result_report hresult)

end Draft

end ScriptAssembly
