import ScriptAssembly.Proofs.Command.Failure
import ScriptAssembly.Proofs.Project.OwnFiles

/-!
# What a request changes on disk

A request changes nothing but the own files of the directory that it works in, and each kind of
request changes only some of them.  A project can also be started in a directory that is not there:
then directories are made on the way to it.  Such a way may lead back to a project that is there,
which is then replaced.
-/

namespace ScriptAssembly

namespace Effect

variable {m : Machine} {project : Project} {home : Place}

/-- Scanning and saving a project changes at most its configuration. -/
theorem ownChanges_ready (hlives : project.layout.LivesIn m home) {spot : Spot}
    (hfind : m.find project.layout.configPath = .ok spot) (skipScan made : Bool) :
    m.disk.OwnChanges home made (if skipScan then [] else ["project.json"])
        (ready skipScan project m).2.disk ∧
      project.layout.LivesIn (ready skipScan project m).2 home := by
  cases skipScan with
  | true => exact ⟨.refl home made [] m.disk, hlives⟩
  | false =>
      simp only [ready, Bool.false_eq_true, if_false, rescan, andThen, ofCheck]
      cases project.config.session.rescan m with
      | error e => exact ⟨.refl home made _ m.disk, hlives⟩
      | ok session =>
          have hsave := machine_of_save (project.withSession session) m
          rw [Project.layout_withSession, Project.makeDirectories_metaDirectory hfind] at hsave
          simp only [Except.mapError]
          generalize save (project.withSession session) m = saved at hsave ⊢
          obtain ⟨result, after⟩ := saved
          have hafter : m.disk.OwnChanges home made ["project.json"] after.disk ∧
              project.layout.LivesIn after home := by
            rcases hsave with hsame | ⟨place, executable, hwrites⟩
            · obtain rfl : after = m := hsame
              exact ⟨.refl home made _ after.disk, hlives⟩
            · exact ⟨hlives.ownChanges_of_writes (by simp) hwrites made, hlives.of_writes hwrites⟩
          cases result <;> exact hafter

end Effect

/-- A build that only checks its inputs changes at most the stamp. -/
theorem Handover.ownChanges_report {handed : Handover} {ready : Machine} {home : Place}
    (hchecks : handed.backend = DryRun.backend) (hlives : handed.layout.LivesIn ready home)
    (now : String) (json : Bool) (before : String) :
    ready.disk.OwnChanges home true ["last_build.json"]
      (handed.report now json before ready).machine.disk := by
  have hcompile : ∀ d, ((handed.backend.compile d).run).run ready =
      (.ok (DryRun.outcome ready d), ready) := by
    rw [hchecks]
    exact fun _ => rfl
  have hmade := hlives.ownChanges_makeDirectories ["last_build.json"]
  rcases report_cases now json before handed ready with
    ⟨o, after, hsucceeds, -, hmachine⟩ | ⟨-, -, hmachine | hmachine⟩
  · have hrefreshes := hsucceeds.refreshes
    rw [hcompile] at hrefreshes
    rw [hmachine]
    rcases Stamp.refresher_cases handed.layout.stampPath now o.outputPath ready with
      ⟨e, hfails⟩ | ⟨stamp, written, place, executable, hwritten, -, hwrites⟩
    · cases hfails.symm.trans hrefreshes
    · cases hwritten.symm.trans hrefreshes
      rw [Stamp.prepared_stampPath] at hwrites
      have hthere := hlives.of_grows (ready.grows_makeDirectories handed.layout.metaDirectory)
      exact hmade.trans (hthere.ownChanges_of_writes (by simp) hwrites true)
  · rw [hmachine, hcompile]
    exact .refl home true _ ready.disk
  · rw [hmachine, hcompile]
    exact hmade

namespace Request

/-- The root of the project that the request is about. -/
def root? : Request → Option String
  | .initProject root _ | .projectInfo root _ | .addReference root _ | .removeReference root _
  | .addFolder root _ | .removeFolder root _ | .addSource root _ | .removeSource root _
  | .listInputs root _ | .setSymbols root _ | .setOutput root _ _ | .scan root _
  | .build root _ _ _ => some root
  | .buildManifest .. | .listBackends _ => none

/-- The path of the directory that the request works in: the root of the project, or the directory
of the manifest. -/
def base? (m : Machine) : Request → Option Path
  | .buildManifest path _ _ => (m.identity ⟨path⟩).parent?
  | request => request.root?.bind fun root => (m.namedRoot root).toOption

/-- The own files that the request may write. -/
def written : Request → List String
  | .projectInfo .. | .listInputs .. | .listBackends .. => []
  | .build _ _ skipScan _ => if skipScan then ["last_build.json"] else
    ["project.json", "last_build.json"]
  | .buildManifest .. => ["last_build.json"]
  | _ => ["project.json"]

/-- The request starts a project. -/
def starts : Request → Bool
  | .initProject .. => true
  | _ => false

/-- The request may make the directory of own files. -/
def makesDirectory : Request → Bool
  | .initProject .. | .buildManifest .. => true
  | _ => false

/-- If the request is for a build, the backend is the one that only checks its inputs. -/
def OnlyChecks (m : Machine) : Request → Prop
  | .build root asked _ _ => ∀ project, Project.openAt m root = .ok project →
    Config.backendName asked (some project.config) = "dry-run"
  | .buildManifest path asked _ => ∀ manifest, Manifest.load m (m.identity ⟨path⟩) = .ok manifest →
    (asked <|> manifest.backend).getD Backend.defaultName = "dry-run"
  | _ => True

/-- What a request may have done to a machine. -/
inductive Confined (request : Request) (m after : Machine) : Prop
  /-- It has changed nothing. -/
  | untouched (hsame : after = m)
  /-- It has changed own files in a directory that is there, and a project that it starts takes the
  place of no entry. -/
  | inside {base : Path} {home : Place} (hbase : request.base? m = some base)
      (hopens : m.Opens base home)
      (hchanges : m.disk.OwnChanges home request.makesDirectory request.written after.disk)
      (hspares : request.starts → ∀ entry,
        m.disk.at? (home ++ [".dll-forge", "project.json"]) = some entry →
        after.disk.at? (home ++ [".dll-forge", "project.json"]) = some entry)
  /-- It has started a project in a directory that was not there, and made directories for it. -/
  | founding {base : Path} {made : Machine} (hstarts : request.starts)
      (hbase : request.base? m = some base) (hnone : ∀ home, ¬m.Opens base home)
      (hmade : m.MakesAbove (Layout.mk base).metaDirectory made)
      (hchanges : after = made ∨ ∃ home, made.Opens base home ∧
        made.disk.OwnChanges home false ["project.json"] after.disk)

variable {request : Request} {m after : Machine} {root : String} {host : Host}

/-- A file that stands in no directory of own files is left alone, and none is made. -/
theorem Confined.file_elsewhere (hconfined : request.Confined m after) {place : Place}
    (hplace : ∀ directory name, place ≠ directory ++ [".dll-forge", name]) {content : ByteArray}
    {executable : Bool} : m.disk.at? place = some (.file content executable) ↔
      after.disk.at? place = some (.file content executable) := by
  cases hconfined with
  | untouched hsame => rw [hsame]
  | inside _ _ hchanges _ => exact hchanges.file_elsewhere (hplace _)
  | @founding base made _ _ _ hmade hchanges =>
      have hgrown : m.disk.at? place = some (.file content executable) ↔
          made.disk.at? place = some (.file content executable) := by
        rcases hmade.grows.disk place with hsame | ⟨hvacant, hdirectory⟩
        · rw [hsame]
        · rw [hvacant, hdirectory]
          simp
      rcases hchanges with rfl | ⟨home, -, hchanges⟩
      · exact hgrown
      · exact hgrown.trans (hchanges.file_elsewhere (hplace _))

/-- Starting a project writes a configuration where none is found. -/
theorem confined_init (hunlinked : m.disk.Unlinked) (name : Option String) :
    (Request.initProject root name).Confined m (Effect.init root name m).2 := by
  rcases Effect.init_cases root name m with ⟨e, hinit⟩ | ⟨base, hroot, hfree, hinit⟩
  · rw [hinit]
    exact .untouched rfl
  · rw [hinit]
    have habsolute := Machine.isAbsolute_of_namedRoot hroot
    have hbase : (Request.initProject root name).base? m = some base := by
      simp [base?, root?, hroot, Except.toOption]
    have hgrows := m.grows_makeDirectories (Layout.mk base).metaDirectory
    have hsave := Effect.machine_of_save (Project.initial m base name) m
    have hlayout : (Project.initial m base name).layout = ⟨base⟩ := rfl
    rw [hlayout] at hsave
    generalize (Effect.save (Project.initial m base name) m).2 = after at hsave ⊢
    by_cases hhome : ∃ home, m.Opens base home
    · obtain ⟨home, hopens⟩ := hhome
      have hlives : (Layout.mk base).LivesIn m home := ⟨habsolute, hopens, hunlinked⟩
      have hmade := hlives.ownChanges_makeDirectories ["project.json"]
      have hthere := hlives.of_grows hgrows
      rcases hsave with rfl | ⟨place, executable, hwrites⟩
      · exact .inside hbase hopens hmade fun _ entry hentry =>
          (hgrows.disk _).at?_eq_some hentry
      · refine .inside hbase hopens
          (hmade.trans (hthere.ownChanges_of_writes (by simp) hwrites true)) ?_
        -- What is written at all was vacant, for else the configuration would have been found.
        intro _ entry hentry
        obtain ⟨spot, hfind, hspot⟩ := hwrites.exists_spot
        have hplace := hthere.place_of_find (by simp) hfind
        rcases hlives.makeDirectories_cases with hsame | ⟨hvacant, -⟩
        · rw [hsame] at hfind hwrites
          rcases hwrites.spot with ⟨old, hfound⟩ | ⟨hfound, -⟩
          · rw [Machine.hasEntry, Machine.entry?, hfound] at hfree
            cases hfree
          · have hnone := (Disk.lookup_stands hfound).1
            rw [← hspot, hplace, hentry] at hnone
            cases hnone
        · have hnone : m.disk.at? (home ++ [".dll-forge"] ++ ["project.json"]) = none :=
            Disk.at?_append_of_vacant hvacant
          rw [List.append_assoc] at hnone
          cases hnone.symm.trans hentry
    · have hmade := m.makesAbove_makeDirectories (Layout.mk base).metaDirectory
      rw [not_exists] at hhome
      refine .founding rfl hbase hhome hmade ?_
      rcases hsave with rfl | ⟨place, executable, hwrites⟩
      · exact .inl rfl
      · obtain ⟨spot, hfind, -⟩ := hwrites.exists_spot
        obtain ⟨home, hlives, -⟩ := Layout.livesIn_of_find habsolute
          (hgrows.unlinked hunlinked) (by simp) hfind
        exact .inr ⟨home, hlives.opens, hlives.ownChanges_of_writes (by simp) hwrites false⟩

/-- Where a project is opened its root leads to a directory. -/
theorem exists_livesIn_of_openAt (hunlinked : m.disk.Unlinked) {project : Project}
    (hopen : Project.openAt m root = .ok project) :
    m.namedRoot root = .ok project.layout.root ∧
      ∃ home place content executable, project.layout.LivesIn m home ∧
        m.disk.at? (home ++ [".dll-forge"]) = some .directory ∧
        m.find project.layout.configPath = .ok (.found place (.file content executable)) := by
  obtain ⟨base, hroot, hload⟩ := Project.openAt_eq_ok_iff.mp hopen
  obtain ⟨place, content, executable, hconfig⟩ := Project.find_configPath_of_load hload
  obtain ⟨-, config, -, -, rfl⟩ := Project.load_eq_ok_iff.mp hload
  obtain ⟨home, hlives, hthere, -⟩ := Layout.livesIn_of_find
    (l := ⟨base⟩) (Machine.isAbsolute_of_namedRoot hroot) hunlinked (by simp) hconfig
  exact ⟨hroot, home, place, content, executable, hlives, hthere, hconfig⟩

theorem of_update {change : Effect.Update} (hupdate : request.update? = some (root, change)) :
    request.base? m = (m.namedRoot root).toOption ∧ request.written = ["project.json"] ∧
      request.starts = false ∧ request.makesDirectory = false := by
  cases request <;> cases hupdate <;> exact ⟨rfl, rfl, rfl, rfl⟩

/-- A cycle of loading, updating and saving writes the configuration. -/
theorem confined_update {change : Effect.Update} (hunlinked : m.disk.Unlinked)
    (hupdate : request.update? = some (root, change)) :
    request.Confined m (Effect.update root change m).2 := by
  obtain ⟨hbase, hwritten, hstarts, hmakes⟩ := @of_update request m root change hupdate
  cases hopen : Project.openAt m root with
  | error e =>
      simp only [Effect.update, Effect.openProject, Effect.andThen, Effect.ofCheck, hopen]
      exact .untouched rfl
  | ok project =>
      obtain ⟨hroot, home, place, content, executable, hlives, -, hconfig⟩ :=
        exists_livesIn_of_openAt hunlinked hopen
      rw [hroot] at hbase
      rcases Effect.update_cases hopen hconfig change with
        ⟨e, hcycle⟩ | ⟨session, after, -, hcycle, hwrites⟩
      · rw [hcycle]
        exact .untouched rfl
      · rw [hcycle]
        refine .inside hbase hlives.opens ?_ (by simp [hstarts])
        rw [hwritten, hmakes]
        exact hlives.ownChanges_of_writes (by simp) hwrites false

/-- A build of a project that only checks its inputs writes the configuration, unless it does not
scan, and the stamp. -/
theorem confined_build {asked : Option String} {skipScan json : Bool}
    (hunlinked : m.disk.Unlinked)
    (hchecks : (Request.build root asked skipScan json).OnlyChecks m) :
    (Request.build root asked skipScan json).Confined m
      ((Request.build root asked skipScan json).run host m).machine := by
  rw [run_build]
  cases hopen : Project.openAt m root with
  | error e =>
      simp only [Effect.handover, Effect.openProject, Effect.andThen, Effect.ofCheck, hopen]
      exact .untouched rfl
  | ok project =>
      obtain ⟨hroot, home, place, content, executable, hlives, hthere, hconfig⟩ :=
        exists_livesIn_of_openAt hunlinked hopen
      have hbase : (Request.build root asked skipScan json).base? m = some project.layout.root := by
        simp [base?, root?, hroot, Except.toOption]
      obtain ⟨hready, hstays⟩ := Effect.ownChanges_ready hlives hconfig skipScan true
      have hwritten : (if skipScan then [] else ["project.json"]) ⊆
          (Request.build root asked skipScan json).written := by
        cases skipScan <;> simp [written]
      have hstamp : ["last_build.json"] ⊆ (Request.build root asked skipScan json).written := by
        cases skipScan <;> simp [written]
      have hdirectory : m.disk.at? (home ++ [".dll-forge"]) ≠ none := by simp [hthere]
      have hconfined : ∀ {last : Machine},
          m.disk.OwnChanges home true (Request.build root asked skipScan json).written last.disk →
          (Request.build root asked skipScan json).Confined m last := fun hchanges =>
        .inside hbase hlives.opens (hchanges.unmade false hdirectory) (by rintro ⟨⟩)
      rw [Effect.handover_eq_of_openAt hopen]
      rcases hran : Effect.ready skipScan project m with ⟨e | ready, scanned⟩
      · rw [hran] at hready
        exact hconfined (hready.mono hwritten)
      · rw [hran] at hready hstays
        dsimp only
        cases hhanded : ready.handover host.spawn asked with
        | error e => exact hconfined (hready.mono hwritten)
        | ok handed =>
            have hlayout := (Project.of_handover hhanded).1.trans (Effect.layout_of_ready hran)
            have hselect := Project.select_of_handover hhanded
            have hname : Config.backendName asked (some ready.config) = "dry-run" := by
              obtain ⟨session, rfl⟩ := Effect.exists_session_of_ready hran
              exact hchecks project hopen
            rw [hname, Effect.selectBackend_dryRun] at hselect
            have hreport := Handover.ownChanges_report (Except.ok.inj hselect).symm
              (hlayout.symm ▸ hstays) host.now json ""
            exact hconfined ((hready.mono hwritten).trans (hreport.mono hstamp))

/-- A build of a manifest that only checks its inputs writes the stamp. -/
theorem confined_buildManifest {path : String} {asked : Option String} {json : Bool}
    (hunlinked : m.disk.Unlinked) (hchecks : (Request.buildManifest path asked json).OnlyChecks m) :
    (Request.buildManifest path asked json).Confined m
      ((Request.buildManifest path asked json).run host m).machine := by
  rw [run_buildManifest]
  cases hhanded : Manifest.handoverAt host.spawn path asked m with
  | error e => exact .untouched rfl
  | ok handed =>
      obtain ⟨hlayout, -, manifest, hload, hselect⟩ := Manifest.of_handoverAt hhanded
      rw [hchecks manifest hload, Effect.selectBackend_dryRun] at hselect
      obtain ⟨place, content, executable, hfile⟩ := Manifest.find_of_load hload
      have habsolute := Machine.isAbsolute_identity_of_find hfile
      obtain ⟨parent, hparent⟩ := Disk.exists_parent?_of_file habsolute hfile
      obtain ⟨hroot, home, hopens⟩ := Machine.exists_opens_parent habsolute hparent hfile
      rw [hparent, Option.getD_some] at hlayout
      have hlives : handed.layout.LivesIn m home := by
        rw [hlayout]
        exact ⟨hroot, hopens, hunlinked⟩
      exact .inside hparent hopens
        (Handover.ownChanges_report (Except.ok.inj hselect).symm hlives _ _ _) (by rintro ⟨⟩)

/-- Where no own name is that of a link, a request changes own files only, and of these only those
that it may write, in the directory that it works in.  Describing and listing change nothing, and a
check of the inputs makes no binary.  Starting a project replaces no entry of a directory that is
there, but directories are made for a root that is not there.  Every other file is what it was. -/
theorem confined_run (host : Host) (request : Request) (m : Machine)
    (hunlinked : m.disk.Unlinked) (hchecks : request.OnlyChecks m) :
    let after := (request.run host m).machine
    request.Confined m after ∧ ∀ place content executable,
      (∀ directory name, place ≠ directory ++ [".dll-forge", name]) →
      (m.disk.at? place = some (.file content executable) ↔
        after.disk.at? place = some (.file content executable)) := by
  intro after
  have hmachine : after = (request.effect host m).2 := (request.run_eq_effect host m).2
  have hconfined : request.Confined m after := by
    cases hupdate : request.update? with
    | some cycle =>
        obtain ⟨root, change⟩ := cycle
        rw [hmachine, request.effect_of_update host hupdate]
        exact confined_update hunlinked hupdate
    | none =>
        cases request with
        | initProject root name =>
            rw [hmachine]
            exact confined_init hunlinked name
        | projectInfo root json | listInputs root json =>
            refine .untouched (hmachine.trans ?_)
            simp only [effect, update?, Effect.andThen, Effect.openProject, Effect.ofCheck]
            cases Project.openAt m root <;> rfl
        | build root asked skipScan json => exact confined_build hunlinked hchecks
        | buildManifest path asked json => exact confined_buildManifest hunlinked hchecks
        | listBackends json => exact .untouched hmachine
        | _ => cases hupdate
  exact ⟨hconfined, fun _ _ _ hplace => hconfined.file_elsewhere hplace⟩

end Request

section Draft

/-- Without any link no name is that of one. -/
theorem Disk.unlinked_of_entries {d : Disk}
    (hentries : ∀ known ∈ d.entries, ∀ target, known.2 ≠ .link target) : d.Unlinked := by
  intro name _ directory target hlink
  have hnoted := (at?_eq_some_iff.mp hlink).2
  have hplace : directory ++ [name] ≠ [] := by simp
  generalize directory ++ [name] = place at hnoted hplace
  cases place with
  | nil => exact hplace rfl
  | cons first names =>
      obtain ⟨before, known, htail, -⟩ := List.lookup_eq_some_iff.mp hnoted
      exact hentries _ (htail ▸ List.mem_append_right _ List.mem_cons_self) target rfl

theorem unlinked_draft : (draft draftConfig []).disk.Unlinked := by
  refine Disk.unlinked_of_entries fun known hknown target hlink => ?_
  simp only [draft, List.append_nil, List.mem_cons, List.not_mem_nil, or_false] at hknown
  rcases hknown with rfl | rfl | rfl | rfl | rfl | rfl <;> cases hlink

/-- A build of the draft that scans and checks changes own files only. -/
theorem confined_run_draft :
    let request := Request.build "/w" (some "dry-run") false true
    let after := (request.run .idle (draft draftConfig [])).machine
    (draft draftConfig []).disk.Unlinked ∧ request.OnlyChecks (draft draftConfig []) ∧
      request.Confined (draft draftConfig []) after :=
  have hchecks : (Request.build "/w" (some "dry-run") false true).OnlyChecks
      (draft draftConfig []) := fun _ _ => rfl
  ⟨unlinked_draft, hchecks, (Request.confined_run .idle _ _ unlinked_draft hchecks).1⟩

variable {config : Config}

/-- The root that leads through a missing directory back to the draft. -/
def strayRoot : Path := ⟨"/w/missing/.."⟩

/-- The draft with that directory made. -/
def strayDraft (config : Config) : Machine := (draft config []).put ["w", "missing"] .directory

/-- Nothing stands where the way leads first. -/
theorem leads_draft_missing (through : Bool) :
    (draft config []).disk.Leads through linkLimit []
      ["".toList, "w".toList, "missing".toList] (.vacant ["w", "missing"] false) :=
  .silent (.inl rfl) (.directory (by decide) rfl (.vacant (by decide) rfl rfl))

theorem lookup_draft_vacant : (draft config []).disk.lookup (draft config []).directory false
    ⟨"/w/missing"⟩ = .ok (.vacant ["w", "missing"] false) :=
  Disk.lookup_of_leads ["".toList, "w".toList, "missing".toList] (by decide) rfl
    (leads_draft_missing false)

theorem namedRoot_stray : (draft config []).namedRoot "missing/.." = .ok strayRoot := by
  have hlocate : (draft config []).disk.locate (draft config []).directory true ⟨"missing/.."⟩ =
      .error .notFound :=
    Disk.locate_behind_vacant ["missing".toList] ["..".toList] (by decide)
      (.vacant (by decide) rfl rfl)
  have hjoin : (Place.path ["w"]).join ⟨"missing/.."⟩ = strayRoot := by decide
  rw [← hjoin]
  exact Machine.namedRoot_of_unresolved (by decide)
    (fun _ ⟨_, hfound⟩ => nomatch hlocate.symm.trans hfound) rfl

theorem hasEntry_stray : (draft config []).hasEntry (Layout.mk strayRoot).configPath = false := by
  have hlookup : (draft config []).find (Layout.mk strayRoot).configPath = .error .notFound :=
    Disk.lookup_behind_vacant ["".toList, "w".toList, "missing".toList]
      ["..".toList, ".dll-forge".toList, "project.json".toList] (by decide) (by decide)
      (leads_draft_missing true)
  rw [Machine.hasEntry, Machine.entry?, hlookup]
  rfl

theorem at?_strayDraft (place : Place) : (strayDraft config).disk.at? place =
    if place = ["w", "missing"] then some .directory else (draft config []).disk.at? place :=
  Machine.at?_put lookup_draft_vacant .directory place

/-- Behind the missing directory, once it is made, the way leads back to the draft. -/
theorem leads_strayDraft {through : Bool} {rest : List (List Char)} {spot : Spot}
    (hrest : (strayDraft config).disk.Leads through linkLimit ["w"] rest spot) :
    (strayDraft config).disk.Leads through linkLimit []
      ("".toList :: "w".toList :: "missing".toList :: "..".toList :: rest) spot := by
  have hw : (strayDraft config).disk.at? ["w"] = some .directory := by
    rw [at?_strayDraft]
    rfl
  have hmissing : (strayDraft config).disk.at? ["w", "missing"] = some .directory := by
    rw [at?_strayDraft]
    rfl
  exact .silent (.inl rfl) (.directory (by decide) hw
    (.directory (by decide) hmissing (.above hrest)))

theorem lookup_strayRoot (through : Bool) : (strayDraft config).disk.lookup
    (strayDraft config).directory through strayRoot = .ok (.found ["w"] .directory) :=
  Disk.lookup_of_leads ["".toList, "w".toList, "missing".toList, "..".toList] (by decide) rfl
    (leads_strayDraft .arrived)

theorem at?_strayDraft_meta :
    (strayDraft config).disk.at? ["w", ".dll-forge"] = some .directory := by
  rw [at?_strayDraft]
  rfl

theorem lookup_strayMeta (through : Bool) : (strayDraft config).disk.lookup
    (strayDraft config).directory through (Layout.mk strayRoot).metaDirectory =
      .ok (.found ["w", ".dll-forge"] .directory) :=
  Disk.lookup_of_leads ["".toList, "w".toList, "missing".toList, "..".toList, ".dll-forge".toList]
    (by decide) rfl (leads_strayDraft (.directory (by decide) at?_strayDraft_meta .arrived))

theorem find_strayConfig : (strayDraft config).find (Layout.mk strayRoot).configPath =
    .ok (.found draftPlace (.file config.toJson.pretty.toUTF8 false)) := by
  have hconfig : (strayDraft config).disk.at? draftPlace =
      some (.file config.toJson.pretty.toUTF8 false) := by
    rw [at?_strayDraft]
    rfl
  exact Disk.lookup_of_leads ["".toList, "w".toList, "missing".toList, "..".toList,
    ".dll-forge".toList, "project.json".toList] (by decide) rfl (leads_strayDraft
      (.directory (by decide) at?_strayDraft_meta (.file (by decide) hconfig)))

/-- The missing directory is made, and then the way is there. -/
theorem makeDirectories_stray :
    (draft config []).makeDirectories (Layout.mk strayRoot).metaDirectory =
      (strayDraft config, .ok ()) := by
  have hroot : (draft config []).disk.lookup (draft config []).directory false strayRoot =
      .error .notFound :=
    Disk.lookup_behind_vacant ["".toList, "w".toList, "missing".toList] ["..".toList] (by decide)
      (by decide) (leads_draft_missing false)
  have hmeta : (draft config []).disk.lookup (draft config []).directory false
      (Layout.mk strayRoot).metaDirectory = .error .notFound :=
    Disk.lookup_behind_vacant ["".toList, "w".toList, "missing".toList]
      ["..".toList, ".dll-forge".toList] (by decide) (by decide) (leads_draft_missing false)
  have hmissing : Machine.makeDirectoriesFrom 4 (draft config []) ⟨"/w/missing"⟩ =
      (strayDraft config, .ok ()) :=
    Machine.makeDirectoriesFrom_of_vacant
      ⟨⟨["w".toList], "missing".toList, by decide, by decide⟩, by decide⟩
      lookup_draft_vacant 3
  have habove := Machine.makeDirectoriesFrom_of_detour (by decide) hroot (by decide) hmissing
    (lookup_strayRoot true)
  have hsteps : (Layout.mk strayRoot).metaDirectory.components.length + 1 = 6 := by decide
  rw [Machine.makeDirectories, hsteps]
  exact Machine.makeDirectoriesFrom_of_detour (by decide) hmeta (by decide) habove
    (lookup_strayMeta true)

/-- A root that leads back to a project through a missing directory has its configuration replaced
by that of a new project. -/
theorem initProject_replaces_config :
    let report := (Request.initProject "missing/.." none).run .idle (draft draftConfig [])
    (draft draftConfig []).disk.Unlinked ∧ report.result = .ok () ∧
    (draft draftConfig []).disk.at? draftPlace =
      some (.file draftConfig.toJson.pretty.toUTF8 false) ∧
    ∃ config : Config, config.toJson.pretty ≠ draftConfig.toJson.pretty ∧
      report.machine.disk.at? draftPlace = some (.file config.toJson.pretty.toUTF8 false) := by
  intro report
  obtain ⟨hresult, hmachine⟩ :=
    (Request.initProject "missing/.." none).run_eq_effect .idle (draft draftConfig [])
  let project := Project.initial (draft draftConfig []) strayRoot none
  have hfound : (strayDraft draftConfig).find project.layout.configPath =
      .ok (.found draftPlace (.file draftConfig.toJson.pretty.toUTF8 false)) := find_strayConfig
  obtain ⟨after, hwrite, hwrites⟩ :=
    Machine.writes_of_found project.config.toJson.pretty.toUTF8 hfound
  have hsave : (project.save.run).run (draft draftConfig []) = (.ok (), after) :=
    Project.run_save_of_writeFile makeDirectories_stray hwrite
  have hinit : (Request.initProject "missing/.." none).effect .idle (draft draftConfig []) =
      (.ok (), after) := by
    simp only [Request.effect, Request.update?, Effect.init, Effect.andThen, Effect.ofCheck,
      namedRoot_stray, Except.mapError, hasEntry_stray, Bool.false_eq_true, if_false, Effect.save,
      Effect.ofAction]
    rw [hsave]
  refine ⟨unlinked_draft, by rw [hresult, hinit], rfl, project.config, fun hsame => ?_, ?_⟩
  · have hname := congrArg Config.name (Config.eq_of_pretty_eq hsame)
    have hnew : project.config.name = "unnamed-project" := by decide
    rw [hnew] at hname
    exact absurd hname (by decide)
  · rw [hmachine, hinit]
    exact hwrites.at?_place

end Draft

end ScriptAssembly
