import ScriptAssembly.Proofs.Command.History
import ScriptAssembly.Proofs.Command.ScanThenBuild
import ScriptAssembly.Proofs.Command.Workbench
import ScriptAssembly.Proofs.Machine.Deletion
import ScriptAssembly.Proofs.Project.OwnFiles

/-!
# Removing a source whose file is gone

A source is kept by the path of its file's place while the file is there, if that is resolved, and a
path to a file that is gone is kept as it is written.  So the words that a source was added by take
it out of the session after its file has been deleted if they are a spelling of the kept path, and
if they are not they leave it in; then no scan succeeds until the file is back.
-/

namespace ScriptAssembly

/-- A project whose configuration can be looked up has a directory for its root. -/
theorem Layout.exists_opens_root {l : Layout} {m : Machine} {spot : Spot}
    (hroot : l.root.isAbsolute) (hfind : m.find l.configPath = .ok spot) :
    ∃ home, m.Opens l.root home := by
  obtain ⟨own, hown⟩ :=
    Disk.lookup_front l.endsNamed_metaDirectory ⟨by decide, by decide⟩ hfind
  obtain ⟨home, hhome, -⟩ := Disk.lookup_joined hroot ⟨by decide, by decide⟩ hown
  exact ⟨home, hhome⟩

namespace Project

variable {m later : Machine} {name : String} {project : Project} {place : Place}

theorem isAbsolute_resolve (hopen : openAt m name = .ok project) (p : Path) :
    (project.layout.resolve p).isAbsolute := by
  obtain ⟨root, hroot, hload⟩ := openAt_eq_ok_iff.mp hopen
  obtain ⟨text, config, -, -, rfl⟩ := load_eq_ok_iff.mp hload
  exact Path.isAbsolute_join_of_isAbsolute (Machine.isAbsolute_of_namedRoot hroot) p

/-- A deleted file is not the root of a project. -/
theorem namedRoot_of_loses (hnamed : m.disk.Named) (hloses : m.Loses place later)
    (hopen : openAt m name = .ok project) :
    ∃ root, later.namedRoot name = .ok root ∧ load m root = .ok project := by
  obtain ⟨root, hroot, hload⟩ := openAt_eq_ok_iff.mp hopen
  refine ⟨root, hloses.namedRoot hroot ?_, hload⟩
  rintro rfl
  obtain ⟨known, content, executable, hconfig⟩ := find_configPath_of_load hload
  obtain ⟨text, config, -, -, rfl⟩ := load_eq_ok_iff.mp hload
  obtain ⟨home, hopens⟩ := Layout.exists_opens_root place.isAbsolute_path hconfig
  obtain ⟨held, mode, hfile⟩ := hloses.disk.file
  have hlocate := @Disk.locate_path _ m.directory _ _ true (hnamed place _ hfile) hfile nofun
  cases hopens.symm.trans hlocate

/-- A project is opened as before when a file is deleted that is not its configuration. -/
theorem openAt_of_loses (hnamed : m.disk.Named) (hloses : m.Loses place later)
    (hopen : openAt m name = .ok project)
    (hconfig : ¬m.LeadsTo project.layout.configPath place) : openAt later name = .ok project := by
  obtain ⟨root, hroot, hload⟩ := namedRoot_of_loses hnamed hloses hopen
  obtain ⟨known, content, executable, hfind⟩ := find_configPath_of_load hload
  have hother : known ≠ place := by
    rintro rfl
    exact hconfig ⟨_, Machine.locate_of_find hfind⟩
  have hsame : later.find project.layout.configPath = m.find project.layout.configPath :=
    (hloses.find_other hother hfind).trans hfind.symm
  obtain ⟨text, config, -, -, rfl⟩ := load_eq_ok_iff.mp hload
  exact openAt_eq_ok_iff.mpr
    ⟨root, hroot, (load_congr (Machine.readText_congr hsame)).trans hload⟩

/-- A project whose configuration is deleted is not opened. -/
theorem openAt_of_lost (hnamed : m.disk.Named) (hloses : m.Loses place later)
    (hopen : openAt m name = .ok project) (hconfig : m.LeadsTo project.layout.configPath place) :
    openAt later name = .error (.readConfig project.layout.configPath .notFound) := by
  obtain ⟨root, hroot, hload⟩ := namedRoot_of_loses hnamed hloses hopen
  obtain ⟨known, content, executable, hfind⟩ := find_configPath_of_load hload
  obtain ⟨entry, hlocate⟩ := hconfig
  have hsame : Except.ok (Spot.found known (.file content executable)) =
      Except.ok (.found place entry) := (Machine.locate_of_find hfind).symm.trans hlocate
  obtain rfl : known = place := by
    cases hsame
    rfl
  have hread : later.readText project.layout.configPath = .error .notFound := by
    rw [Machine.readText, Machine.readBytes, hloses.find_lost hfind]
    rfl
  obtain ⟨text, config, -, -, rfl⟩ := load_eq_ok_iff.mp hload
  have hfails : load later root = .error (.readConfig (Layout.mk root).configPath .notFound) := by
    unfold load
    dsimp only
    rw [hread]
  rw [openAt, hroot]
  exact hfails

end Project

namespace Request

variable {host : Host} {m later : Machine} {root x : String} {project : Project} {place : Place}

/-- A project whose session can be rescanned is scanned. -/
theorem scan_ok_iff {json : Bool} (hopen : Project.openAt m root = .ok project) :
    ((scan root json).run host m).result = .ok () ↔
      m.CanRead project.config.session.sources.toList := by
  rw [← Session.exists_rescan_iff]
  constructor
  · intro hscan
    obtain ⟨other, session, hother, hrescan, -⟩ := run_scan hscan
    cases hopen.symm.trans hother
    exact ⟨session, hrescan⟩
  · rintro ⟨session, hrescan⟩
    exact scan_of_rescan hopen hrescan

/-- A build fails over its scan exactly if a source cannot be read. -/
theorem build_scan_error_iff {asked : Option String} {json : Bool}
    (hopen : Project.openAt m root = .ok project) :
    (∃ e, ((build root asked false json).run host m).result = .error (.scan e)) ↔
      ¬m.CanRead project.config.session.sources.toList := by
  obtain ⟨path, -, hload⟩ := Project.openAt_eq_ok_iff.mp hopen
  obtain ⟨place, content, executable, hconfig⟩ := Project.find_configPath_of_load hload
  have hbuild : ((build root asked false json).run host m).result =
      (((Effect.ready false project).andThen (Effect.compile host asked)).andThen Effect.report
        m).1 := by
    rw [(run_eq_effect host _ m).1]
    simp only [effect, update?, Effect.build, Effect.openProject]
    rw [Effect.andThen, Effect.ofCheck, hopen]
    rfl
  rw [hbuild, Effect.andThen, Effect.andThen, Effect.ready, if_neg Bool.false_ne_true,
    ← Session.exists_rescan_iff]
  rcases Effect.rescan_cases_of_find hconfig with
    ⟨e, hrescan, hready⟩ | ⟨session, after, hrescan, hready, -⟩
  · rw [hrescan, hready]
    simp
  · rw [hrescan, hready]
    refine iff_of_false ?_ fun hnone => hnone ⟨session, rfl⟩
    rintro ⟨e, hresult⟩
    have hcompile := Effect.compile_ne_scan host asked (project.withSession session) after e
    dsimp only at hresult
    generalize Effect.compile host asked (project.withSession session) after = compiled
      at hresult hcompile
    obtain ⟨cause | ⟨output⟩ | ⟨diagnostics⟩, last⟩ := compiled
    · cases hresult
      exact hcompile rfl
    · cases hresult
    · cases hresult

/-- A source is added where its path leads to a file, and nothing but the text of the configuration
changes. -/
theorem exists_added (hadd : ((addSource root x).run host m).result = .ok ()) :
    ∃ project place,
      let added := ((addSource root x).run host m).machine
      let p := project.layout.resolve ⟨x⟩
      Project.openAt m root = .ok project ∧ m.LeadsTo p place ∧ added.disk.IsFileAt place ∧
        m.Alike added ∧ added.disk.Keeps m.disk ∧
        Project.openAt added root =
          .ok (project.withSession (project.config.session.addSource m p)) := by
  have hupdate : (addSource root x).update? = some (root, _) := rfl
  obtain ⟨project, session, hopen, hchange⟩ := exists_change hupdate hadd
  obtain ⟨-, configPlace, held, mode, hconfig, hwrites, hreopen⟩ :=
    run_of_change host hupdate hopen hchange
  have halike := hwrites.alike hconfig
  simp only [Command.existingFile] at hchange
  by_cases hfile : m.isFile (project.layout.resolve ⟨x⟩)
  · rw [if_pos hfile] at hchange
    cases hchange
    obtain ⟨place, content, executable, hfind⟩ := Machine.find_of_isFile hfile
    obtain ⟨kept, hadded⟩ := halike.find_file hfind
    exact ⟨project, place, hopen, ⟨_, Machine.locate_of_find hfind⟩,
      ⟨kept, executable, Disk.lookup_stands hadded⟩, halike, hwrites.keeps_back hconfig, hreopen⟩
  · rw [if_neg hfile] at hchange
    cases hchange

/-- After its file has been deleted a source is taken out as its path is written. -/
theorem removed_of_loses (host : Host) (hnamed : m.disk.Named) (hloses : m.Loses place later)
    {s : Session} (hopen : Project.openAt m root = .ok (project.withSession s))
    (hleads : m.LeadsTo (project.layout.resolve ⟨x⟩) place)
    (hconfig : ¬m.LeadsTo project.layout.configPath place) :
    let removed := (removeSource root x).run host later
    removed.result = .ok () ∧
      Project.openAt removed.machine root = .ok (project.withSession
        { s with sources := s.sources.erase (project.layout.resolve ⟨x⟩) }) ∧
      removed.machine.disk.Keeps m.disk ∧ removed.machine.disk.at? place = none := by
  intro removed
  have hlater := Project.openAt_of_loses hnamed hloses hopen hconfig
  have habsolute : (project.layout.resolve ⟨x⟩).isAbsolute := Project.isAbsolute_resolve hopen ⟨x⟩
  have hsession : s.removeSource later (project.layout.resolve ⟨x⟩) =
      { s with sources := s.sources.erase (project.layout.resolve ⟨x⟩) } := by
    rw [Session.removeSource, hloses.identity_lost habsolute hleads]
  have hupdate : (removeSource root x).update? = some (root, _) := rfl
  obtain ⟨hresult, configPlace, content, executable, hfind, hwrites, hreopen⟩ :=
    run_of_change host hupdate hlater rfl
  refine ⟨hresult, ?_, (hwrites.keeps_back hfind).trans hloses.disk.keeps_back, ?_⟩
  · rw [← hsession]
    exact hreopen
  · have hother : place ≠ configPlace := by
      rintro rfl
      have hthere : later.disk.at? place = some (.file content executable) :=
        Disk.lookup_stands hfind
      cases hloses.disk.at?_place.symm.trans hthere
    rw [hwrites.disk, if_neg hother, hloses.disk.at?_place]

/-- The sources that are left can be read only if the path that was kept is not among them. -/
theorem canRead_left_iff {removed : Machine} {p : Path} (hnamed : m.disk.Named)
    (hback : removed.disk.Keeps m.disk) (hgone : removed.disk.at? place = none)
    (hp : p.isAbsolute) (hleads : m.LeadsTo p place) (sources : PathSet) :
    removed.CanRead ((sources.insert (m.identity p)).erase p).toList ↔
      (m.staysShort p → m.disk.GoesStraight p) ∧
        removed.CanRead (sources.erase (m.identity p)).toList := by
  rw [← Machine.same_identity_self_iff hnamed hp hleads]
  by_cases hsame : p.Same (m.identity p)
  · rw [PathSet.erase_congr hsame, PathSet.erase_insert, and_iff_right hsame]
  · refine iff_of_false (fun hcan => ?_) fun hboth => hsame hboth.1
    have hshort : m.staysShort p := by
      by_contra hlong
      exact hsame ((Machine.same_identity_self_iff hnamed hp hleads).mpr (absurd · hlong))
    have hidentity := Machine.identity_of_leadsTo hleads hshort
    obtain ⟨entry, hlocate⟩ := hleads
    obtain ⟨hstands, hlink⟩ := Disk.stands_of_locate hlocate
    obtain ⟨kept, hkept, hspelt⟩ :=
      PathSet.contains_iff.mp (sources.contains_insert_self (m.identity p))
    have hleft : kept ∈ ((sources.insert (m.identity p)).erase p).toList :=
      PathSet.mem_erase.mpr ⟨hkept, fun hother => hsame (hother.symm.trans hspelt)⟩
    obtain ⟨content, hread⟩ := hcan kept hleft
    obtain ⟨other, executable, hfind⟩ := Machine.find_of_readBytes hread
    exact Disk.locate_ne_of_vacant (hnamed.of_keeps hback) (hnamed place entry hstands)
      ((Disk.straight_of_at? hstands hlink).of_keeps hback) hgone (hidentity ▸ hspelt)
      (Machine.locate_of_find hfind)

end Request

/-- A source that is added is kept by its identity, which is the path of the place of its file if
the way there stays short.  When nothing but this file has been deleted, removing the source by the
same words fails if the file was the configuration of the project itself, and else takes the kept
path out exactly if the words, read from the root, went straight to the file or were not resolved.
It then leaves the session that it would have left before, and a scan succeeds, and no build fails
over its scan, as soon as the other sources can be read.  If the words were resolved and took
another way the kept path stays, and with it every scan fails. -/
theorem Request.removal_after_deletion (host : Host) (root x : String) (m : Machine)
    (hnamed : m.disk.Named) (hadd : ((Request.addSource root x).run host m).result = .ok ()) :
    let added := ((Request.addSource root x).run host m).machine
    ∃ (project : Project) (place : Place),
      let p := project.layout.resolve ⟨x⟩
      let s := project.config.session
      let fits := m.staysShort p → m.disk.GoesStraight p
      Project.openAt m root = .ok project ∧ m.LeadsTo p place ∧
      Project.openAt added root = .ok (project.withSession (s.addSource m p)) ∧
      (s.addSource m p).sources = s.sources.insert (m.identity p) ∧
      m.identity p = (if m.staysShort p then place.path else p) ∧
      (∃ later, added.Loses place later) ∧
      ∀ later, added.Loses place later →
        let removed := (Request.removeSource root x).run host later
        (m.LeadsTo project.layout.configPath place →
          removed.result = .error (.readConfig project.layout.configPath .notFound)) ∧
        (¬m.LeadsTo project.layout.configPath place → removed.result = .ok () ∧
          ∃ left : Session,
            Project.openAt removed.machine root = .ok (project.withSession left) ∧
            (left.sources.contains (m.identity p) = false ↔ fits) ∧
            (fits → left = s.removeSource m p) ∧
            let readable := fits ∧
              removed.machine.CanRead (s.sources.erase (m.identity p)).toList
            (∀ json, ((Request.scan root json).run host removed.machine).result = .ok () ↔
              readable) ∧
            ∀ asked json, (∃ e, ((Request.build root asked false json).run host
              removed.machine).result = .error (.scan e)) ↔ ¬readable) := by
  intro added
  obtain ⟨project, place, hopen, hleads, hfile, halike, hback, hreopen⟩ := exists_added hadd
  have hp := Project.isAbsolute_resolve hopen ⟨x⟩
  have hfits := Machine.same_identity_self_iff hnamed hp hleads
  have haddedNamed : added.disk.Named := hnamed.of_keeps hback
  refine ⟨project, place, hopen, hleads, hreopen, rfl, Machine.identity_eq_ite hp hleads, ?_,
    fun later hloses => ?_⟩
  · exact ⟨{ added with disk := added.disk.erase place }, ⟨rfl, rfl⟩, Disk.loses_erase hfile⟩
  refine ⟨fun hconfig => ?_, fun hconfig => ?_⟩
  · have hupdate : (Request.removeSource root x).update? = some (root, _) := rfl
    have hlost := Project.openAt_of_lost haddedNamed hloses hreopen
      (halike.leadsTo_iff.mpr hconfig)
    exact Request.run_of_unopened host hupdate hlost
  · obtain ⟨hresult, hleft, hkeeps, hgone⟩ := removed_of_loses host haddedNamed hloses hreopen
      (halike.leadsTo_iff.mpr hleads) (mt halike.leadsTo_iff.mp hconfig)
    have hcan := canRead_left_iff hnamed (hkeeps.trans hback) hgone hp hleads
      project.config.session.sources
    refine ⟨hresult, _, hleft, ?_, ?_, ?_, ?_⟩
    · have hcontains := project.config.session.sources.contains_insert_self
        (m.identity (project.layout.resolve ⟨x⟩))
      rw [← hfits, Session.addSource, Bool.eq_false_iff, ne_eq, PathSet.contains_erase,
        not_and_not_right]
      exact ⟨fun hsame => hsame hcontains, fun hsame _ => hsame⟩
    · intro hgoes
      rw [Session.removeSource, Session.addSource, PathSet.erase_congr (hfits.mpr hgoes),
        PathSet.erase_insert]
    · intro json
      exact (scan_ok_iff hleft).trans hcan
    · intro asked json
      exact (build_scan_error_iff hleft).trans (not_congr hcan)

section Draft

/-- The draft before its source is picked. -/
def unpicked : Machine := draft (Config.new "demo") []

/-- The project of the draft before its source is picked. -/
def unpickedProject : Project := ⟨draftLayout, Config.new "demo"⟩

theorem named_unpicked : unpicked.disk.Named := Disk.named_of_entries (by decide)

theorem short_unpicked : unpicked.disk.Short := Disk.short_of_entries (by decide)

theorem openAt_unpicked : Project.openAt unpicked "/w" = .ok unpickedProject :=
  openAt_draft (Config.new "demo") []

theorem find_detour_unpicked : unpicked.find ⟨"/w/src/../src/a.cs"⟩ =
    .ok (.found ["w", "src", "a.cs"] (.file "#if NEW".toUTF8 false)) := by
  refine Disk.lookup_of_leads ["".toList, "w".toList, "src".toList, "..".toList, "src".toList,
    "a.cs".toList] (by decide) rfl ?_
  exact .silent (.inl rfl) (.directory (by decide) rfl (.directory (by decide) rfl
    (.above (.directory (by decide) rfl (.file (by decide) rfl)))))

theorem not_leadsTo_config_unpicked :
    ¬unpicked.LeadsTo unpickedProject.layout.configPath ["w", "src", "a.cs"] := by
  rintro ⟨entry, hlocate⟩
  have hconfig := Machine.locate_of_find (find_config_draft (Config.new "demo") [])
  have hplace := congrArg (Except.map Spot.place) (hconfig.symm.trans hlocate)
  simp [Except.map, Spot.place, draftPlace] at hplace

theorem addSource_unpicked {x : String} {content : ByteArray} {executable : Bool}
    {place : Place} (hfind : unpicked.find (draftLayout.resolve ⟨x⟩) =
      .ok (.found place (.file content executable))) :
    ((Request.addSource "/w" x).run .idle unpicked).result = .ok () :=
  (Request.run_addSource openAt_unpicked (find_config_draft (Config.new "demo") [])
    (Machine.isFile_of_find hfind)).1

/-- A source that is named straight is removed after its file has been deleted, and the project can
be scanned. -/
theorem removal_after_deletion_straight :
    let adding := (Request.addSource "/w" "src/a.cs").run .idle unpicked
    unpicked.disk.Named ∧ adding.result = .ok () ∧
    ∃ later left, adding.machine.Loses ["w", "src", "a.cs"] later ∧
      let removed := (Request.removeSource "/w" "src/a.cs").run .idle later
      removed.result = .ok () ∧
      Project.openAt removed.machine "/w" = .ok (unpickedProject.withSession left) ∧
      left.sources.contains ⟨"/w/src/a.cs"⟩ = false ∧
      ((Request.scan "/w" true).run .idle removed.machine).result = .ok () := by
  intro adding
  have hfind : unpicked.find (draftLayout.resolve ⟨"src/a.cs"⟩) =
      .ok (.found ["w", "src", "a.cs"] (.file "#if NEW".toUTF8 false)) := by
    have hresolve : draftLayout.resolve ⟨"src/a.cs"⟩ = ⟨"/w/src/a.cs"⟩ := by decide
    rw [hresolve]
    exact find_source_draft (Config.new "demo") []
  have hadd : adding.result = .ok () := addSource_unpicked hfind
  obtain ⟨project, place, hopen, ⟨entry, hlocate⟩, -, -, hidentity, ⟨later, hloses⟩, hremoved⟩ :=
    Request.removal_after_deletion .idle "/w" "src/a.cs" unpicked named_unpicked hadd
  obtain rfl : unpickedProject = project := Except.ok.inj (openAt_unpicked.symm.trans hopen)
  obtain rfl : ["w", "src", "a.cs"] = place := by
    cases (Machine.locate_of_find hfind).symm.trans hlocate
    rfl
  obtain ⟨hresult, left, hleft, hcontains, -, hscan, -⟩ :=
    (hremoved later hloses).2 not_leadsTo_config_unpicked
  have hgoes : unpicked.disk.GoesStraight (draftLayout.resolve ⟨"src/a.cs"⟩) :=
    (Disk.goesStraight_iff named_unpicked (by decide) hlocate).mpr (by decide)
  have hshort := Machine.staysShort_of_leadsTo short_unpicked ⟨entry, hlocate⟩
  have hkept : unpicked.identity (draftLayout.resolve ⟨"src/a.cs"⟩) = ⟨"/w/src/a.cs"⟩ := by
    refine hidentity.trans ((if_pos hshort).trans ?_)
    decide
  have hgone := hcontains.mpr fun _ => hgoes
  have hleaves : left.sources.contains (unpicked.identity (draftLayout.resolve ⟨"src/a.cs"⟩)) =
      false := hgone
  rw [hkept] at hleaves
  refine ⟨named_unpicked, hadd, later, left, hloses, hresult, hleft, hleaves, ?_⟩
  exact (hscan true).mpr ⟨fun _ => hgoes, Machine.canRead_nil _⟩

/-- A source that is named by way of its directory's parent stays after its file has been deleted,
whatever is removed by that name, and no scan succeeds. -/
theorem kept_after_deletion :
    let adding := (Request.addSource "/w" "src/../src/a.cs").run .idle unpicked
    adding.result = .ok () ∧
    unpicked.LeadsTo (draftLayout.resolve ⟨"src/../src/a.cs"⟩) ["w", "src", "a.cs"] ∧
    Project.openAt adding.machine "/w" = .ok (unpickedProject.withSession draftSession) ∧
    ∃ later left, adding.machine.Loses ["w", "src", "a.cs"] later ∧
      let removed := (Request.removeSource "/w" "src/../src/a.cs").run .idle later
      removed.result = .ok () ∧
      Project.openAt removed.machine "/w" = .ok (unpickedProject.withSession left) ∧
      left.sources.contains ⟨"/w/src/a.cs"⟩ = true ∧
      ((Request.scan "/w" true).run .idle removed.machine).result ≠ .ok () := by
  intro adding
  have hresolve : draftLayout.resolve ⟨"src/../src/a.cs"⟩ = ⟨"/w/src/../src/a.cs"⟩ := by decide
  have hfind : unpicked.find (draftLayout.resolve ⟨"src/../src/a.cs"⟩) =
      .ok (.found ["w", "src", "a.cs"] (.file "#if NEW".toUTF8 false)) := by
    rw [hresolve]
    exact find_detour_unpicked
  have hadd : adding.result = .ok () := addSource_unpicked hfind
  obtain ⟨project, place, hopen, ⟨entry, hlocate⟩, hfile, halike, hback, hreopen⟩ :=
    Request.exists_added hadd
  obtain rfl : unpickedProject = project := Except.ok.inj (openAt_unpicked.symm.trans hopen)
  obtain rfl : ["w", "src", "a.cs"] = place := by
    cases (Machine.locate_of_find hfind).symm.trans hlocate
    rfl
  have hleads : unpicked.LeadsTo (unpickedProject.layout.resolve ⟨"src/../src/a.cs"⟩)
      ["w", "src", "a.cs"] := ⟨entry, hlocate⟩
  have hshort := Machine.staysShort_of_leadsTo short_unpicked hleads
  have hidentity := Machine.identity_of_leadsTo hleads hshort
  have hsession : unpickedProject.config.session.addSource unpicked
      (unpickedProject.layout.resolve ⟨"src/../src/a.cs"⟩) = draftSession := by
    rw [Session.addSource, hidentity]
    rfl
  rw [hsession] at hreopen
  let later : Machine :=
    { adding.machine with disk := adding.machine.disk.erase ["w", "src", "a.cs"] }
  have hloses : adding.machine.Loses ["w", "src", "a.cs"] later :=
    ⟨⟨rfl, rfl⟩, Disk.loses_erase hfile⟩
  obtain ⟨hresult, hleft, hkeeps, hgone⟩ := Request.removed_of_loses .idle
    (named_unpicked.of_keeps hback) hloses hreopen (halike.leadsTo_iff.mpr hleads)
    (mt halike.leadsTo_iff.mp not_leadsTo_config_unpicked)
  have hcan := Request.canRead_left_iff named_unpicked (hkeeps.trans hback) hgone (by decide) hleads
    .empty
  refine ⟨hadd, hleads, hreopen, later, _, hloses, hresult, hleft, by decide, fun hscan => ?_⟩
  rw [hidentity] at hcan
  obtain ⟨hgoes, -⟩ := hcan.mp ((Request.scan_ok_iff hleft).mp hscan)
  exact absurd ((Disk.goesStraight_iff named_unpicked (by decide) hlocate).mp (hgoes hshort))
    (by decide)

end Draft

end ScriptAssembly
