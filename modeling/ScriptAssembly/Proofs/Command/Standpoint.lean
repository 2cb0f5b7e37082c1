import ScriptAssembly.Proofs.Collect.Shown
import ScriptAssembly.Proofs.Command.ScanThenBuild
import ScriptAssembly.Proofs.Machine.NormalForm

/-!
# Where a request is made from

An absolute path leads to the same place from every working directory, and so do all paths of a
project whose root is absolute.  A root that the user names is made absolute at once, and names of
one directory that are resolved differ at most by a slash at the end, which no path below it shows.
So a request on the session of a project has one outcome from everywhere, as long as a scan reads no
source from the working directory.

A name that is not resolved is only put behind the working directory.  So a directory that is too
deep has several roots, and some of them may be too long for the files below them to be opened.
-/

namespace ScriptAssembly

namespace Machine

variable {m other : Machine} {p : Path} {root : String} {place : Place}

/-! ## Absolute paths on machines with one disk -/

theorem find_of_isAbsolute (hdisk : other.disk = m.disk) (hp : p.isAbsolute) :
    other.find p = m.find p := by
  rw [find, find, hdisk]
  exact m.disk.lookup_of_isAbsolute hp _ _ true

theorem identity_of_isAbsolute (hdisk : other.disk = m.disk) (hp : p.isAbsolute) :
    other.identity p = m.identity p := by
  have hshort : other.staysShort p = m.staysShort p := by
    rw [staysShort, staysShort, hdisk, Disk.origin, Disk.origin, if_pos hp, if_pos hp]
  have hcanonical : other.canonical p = m.canonical p := by
    rw [canonical, canonical, hshort, hdisk,
      m.disk.locate_of_isAbsolute hp m.directory other.directory]
  rw [identity, identity, hcanonical]
  cases m.canonical p with
  | ok known => rfl
  | error e =>
      dsimp only
      rw [if_pos hp, if_pos hp]

theorem readBytes_of_isAbsolute (hdisk : other.disk = m.disk) (hp : p.isAbsolute) :
    other.readBytes p = m.readBytes p := by
  rw [readBytes, readBytes, find_of_isAbsolute hdisk hp]

theorem isFile_of_isAbsolute (hdisk : other.disk = m.disk) (hp : p.isAbsolute) :
    other.isFile p = m.isFile p := by
  rw [isFile, isFile, entry?_congr (find_of_isAbsolute hdisk hp)]

theorem collect_of_isAbsolute (hdisk : other.disk = m.disk) (c : Collector) (hp : p.isAbsolute) :
    c.collect other p = c.collect m p := by
  have hentry := entry?_congr (find_of_isAbsolute hdisk (m.isAbsolute_identity hp))
  unfold Collector.collect
  dsimp only
  rw [identity_of_isAbsolute hdisk hp, hentry, hdisk]

theorem scanFiles_of_isAbsolute (hdisk : other.disk = m.disk) {paths : List Path}
    (hpaths : ∀ p ∈ paths, p.isAbsolute) : other.scanFiles paths = m.scanFiles paths := by
  have hfrom : ∀ found, other.scanFilesFrom found paths = m.scanFilesFrom found paths := by
    induction paths with
    | nil => exact fun _ => rfl
    | cons p paths ih =>
        intro found
        have hrest := ih fun q hq => hpaths q (List.mem_cons_of_mem p hq)
        have hfile : other.scanFile p = m.scanFile p := by
          rw [scanFile, scanFile, readBytes_of_isAbsolute hdisk (hpaths p List.mem_cons_self)]
        rw [scanFilesFrom, scanFilesFrom, hfile]
        cases m.scanFile p with
        | ok symbols => exact hrest _
        | error e => rfl
  exact hfrom .empty

/-- A file is written on both machines or on neither, and then the disk is the same again. -/
theorem writeFile_of_isAbsolute (hdisk : other.disk = m.disk) (hp : p.isAbsolute)
    (content : ByteArray) : (other.writeFile p content).map Machine.disk =
      (m.writeFile p content).map Machine.disk := by
  rw [writeFile, writeFile, find_of_isAbsolute hdisk hp]
  rcases m.find p with e | ⟨place, - | ⟨old, executable⟩ | target⟩ | ⟨place, - | -⟩
  case ok.found.file => exact congrArg (fun d : Disk => Except.ok (d.replace place _)) hdisk
  case ok.vacant.false => exact congrArg (fun d : Disk => Except.ok (d.replace place _)) hdisk
  all_goals rfl

/-! ## Roots that lead to one directory -/

/-- The name of a root reaches the place: as a path it is resolved to it, and an empty name stands
for the working directory. -/
def Reaches (m : Machine) (root : String) (place : Place) : Prop :=
  (m.LeadsTo ⟨root⟩ place ∧ m.staysShort ⟨root⟩) ∨
    root = "" ∧ place = m.directory ∧ m.disk.at? m.directory = some .directory

/-- Two names of roots on two machines come to one directory: both are resolved to it, or both are
made the same absolute path. -/
def Meets (m other : Machine) (root name : String) : Prop :=
  (∃ place, m.Reaches root place ∧ other.Reaches name place) ∨
    ∃ path, path.isAbsolute ∧ m.namedRoot root = .ok path ∧ other.namedRoot name = .ok path

/-- Whichever way a directory is named, the root is its path, but for a slash at the end. -/
theorem namedRoot_of_reaches (hroot : m.Reaches root place) :
    m.namedRoot root = .ok place.path ∨ m.namedRoot root = .ok (place.path.join ⟨""⟩) := by
  rcases hroot with ⟨hleads, hshort⟩ | ⟨rfl, rfl, hdirectory⟩
  · refine .inl ?_
    by_cases hhere : (Path.mk root).Same ⟨"."⟩
    · obtain ⟨entry, hlocate⟩ := hleads
      have hrelative : (Path.mk root).isAbsolute = false := hhere.symm.isAbsolute
      by_cases hstands : m.disk.isDirectoryAt m.directory = true
      · have hdot : m.disk.locate m.directory true ⟨"."⟩ =
            .ok (.found m.directory .directory) := by
          have hpieces : Text.split '/' (Path.mk ".").text.toList = [['.']] := by decide
          rw [Disk.locate, if_neg (by decide), if_neg (by decide), if_neg (by decide),
            if_pos hstands, hpieces, Disk.follow, if_pos (.inr rfl), Disk.follow]
        have hsame := Disk.locate_of_same hhere.symm hdot
        rw [hlocate] at hsame
        cases hsame
        simp only [namedRoot, hhere, if_true, workingDirectory, hstands]
      · have hnone : m.disk.locate m.directory true ⟨root⟩ ≠ .ok (.found place entry) := by
          unfold Disk.locate
          simp only [hrelative, hstands]
          split <;> simp
        exact absurd hlocate hnone
    · simp only [namedRoot, hhere, if_false, canonical_of_leadsTo hleads hshort]
  · refine .inr (namedRoot_of_unresolved (by decide) ?_ hdirectory)
    rintro _ ⟨_, hlocate⟩
    cases (Disk.locate_eq_ok_iff.mp hlocate).2.1

end Machine

/-! ## Layouts with one directory of their own -/

/-- Two layouts of one project: their own files are the same, and all paths are absolute. -/
structure Layout.Meets (l other : Layout) : Prop where
  /-- The own files are the same. -/
  metaDirectory : l.metaDirectory = other.metaDirectory
  /-- The first root is absolute. -/
  absolute : l.root.isAbsolute

namespace Layout.Meets

variable {l other : Layout} (hmeets : l.Meets other)

include hmeets

theorem configPath : l.configPath = other.configPath := configPath_congr hmeets.metaDirectory

theorem resolve (p : Path) : l.resolve p = other.resolve p := resolve_congr hmeets.metaDirectory p

theorem isAbsolute_resolve (p : Path) : (l.resolve p).isAbsolute :=
  Path.isAbsolute_join_of_isAbsolute hmeets.absolute p

theorem isAbsolute_configPath : l.configPath.isAbsolute :=
  Path.isAbsolute_join_of_isAbsolute (Path.isAbsolute_join_of_isAbsolute hmeets.absolute _) _

end Layout.Meets

theorem Machine.layouts_of_meets {m other : Machine} {root name : String}
    (hroots : m.Meets other root name) :
    ∃ path named, m.namedRoot root = .ok path ∧ other.namedRoot name = .ok named ∧
      (Layout.mk path).Meets ⟨named⟩ := by
  rcases hroots with ⟨place, hroot, hname⟩ | ⟨path, habsolute, hroot, hname⟩
  swap
  · exact ⟨path, path, hroot, hname, rfl, habsolute⟩
  have habsolute := place.isAbsolute_path
  have hmeta : (Layout.mk (place.path.join ⟨""⟩)).metaDirectory =
      (Layout.mk place.path).metaDirectory := Path.join_join_empty habsolute _
  have hslashed := Path.isAbsolute_join_of_isAbsolute habsolute ⟨""⟩
  rcases namedRoot_of_reaches hroot with hpath | hpath <;>
    rcases namedRoot_of_reaches hname with hnamed | hnamed
  · exact ⟨_, _, hpath, hnamed, rfl, habsolute⟩
  · exact ⟨_, _, hpath, hnamed, hmeta.symm, habsolute⟩
  · exact ⟨_, _, hpath, hnamed, hmeta, hslashed⟩
  · exact ⟨_, _, hpath, hnamed, rfl, hslashed⟩

/-! ## Requests made from two directories -/

namespace Request

/-- The request with another root for its project. -/
def rootedAt (root : String) : Request → Request
  | .initProject _ name => .initProject root name
  | .projectInfo _ json => .projectInfo root json
  | .addReference _ path => .addReference root path
  | .removeReference _ path => .removeReference root path
  | .addFolder _ path => .addFolder root path
  | .removeFolder _ path => .removeFolder root path
  | .addSource _ path => .addSource root path
  | .removeSource _ path => .removeSource root path
  | .listInputs _ json => .listInputs root json
  | .setSymbols _ symbols => .setSymbols root symbols
  | .setOutput _ name executable => .setOutput root name executable
  | .scan _ json => .scan root json
  | .build _ backend skipScan json => .build root backend skipScan json
  | .buildManifest manifest backend json => .buildManifest manifest backend json
  | .listBackends json => .listBackends json

/-- The request replaces symbols by those of sources. -/
def isScan : Request → Bool
  | .scan .. => true
  | _ => false

variable {m other : Machine} {project projectThere : Project} {request : Request} {root : String}
  {change : Effect.Update}

theorem update?_rootedAt (hupdate : request.update? = some (root, change)) (name : String) :
    (request.rootedAt name).update? = some (name, change) := by
  cases request <;> cases hupdate <;> rfl

theorem existingFile_of_meets (hdisk : other.disk = m.disk)
    (hmeets : project.layout.Meets projectThere.layout) (missing : Path → CommandError)
    (path : String) : Command.existingFile other projectThere missing path =
      Command.existingFile m project missing path := by
  simp only [Command.existingFile, ← hmeets.resolve,
    Machine.isFile_of_isAbsolute hdisk (hmeets.isAbsolute_resolve _)]

theorem identity_of_existingFile (hdisk : other.disk = m.disk)
    (hmeets : project.layout.Meets projectThere.layout) {missing : Path → CommandError}
    {path : String} {found : Path}
    (hfound : Command.existingFile m project missing path = .ok found) :
    other.identity found = m.identity found := by
  unfold Command.existingFile at hfound
  dsimp only at hfound
  split at hfound
  · cases hfound
    exact Machine.identity_of_isAbsolute hdisk (hmeets.isAbsolute_resolve _)
  · cases hfound

/-- The session that a request makes does not depend on the working directory. -/
theorem change_of_meets (hupdate : request.update? = some (root, change))
    (hdisk : other.disk = m.disk) (hmeets : project.layout.Meets projectThere.layout)
    (hconfig : projectThere.config = project.config)
    (hscan : request.isScan → ∀ p ∈ project.config.session.sources.toList, p.isAbsolute) :
    change other projectThere projectThere.config.session =
      change m project project.config.session := by
  have hidentity : ∀ path, other.identity (projectThere.layout.resolve path) =
      m.identity (project.layout.resolve path) := by
    intro path
    rw [← hmeets.resolve]
    exact Machine.identity_of_isAbsolute hdisk (hmeets.isAbsolute_resolve path)
  rw [hconfig]
  cases request with
  | addReference _ path =>
      cases hupdate
      dsimp only
      rw [existingFile_of_meets hdisk hmeets]
      cases hfound : Command.existingFile m project .missingReference path with
      | error e => simp only [Except.map]
      | ok found =>
          simp only [Except.map, Session.addReference,
            identity_of_existingFile hdisk hmeets hfound]
  | addSource _ path =>
      cases hupdate
      dsimp only
      rw [existingFile_of_meets hdisk hmeets]
      cases hfound : Command.existingFile m project .missingSource path with
      | error e => simp only [Except.map]
      | ok found =>
          simp only [Except.map, Session.addSource, identity_of_existingFile hdisk hmeets hfound]
  | removeReference _ path | removeSource _ path | removeFolder _ path =>
      cases hupdate
      simp only [Session.removeReference, Session.removeSource, Session.removeFolder, hidentity]
  | addFolder _ path =>
      cases hupdate
      have habsolute := m.isAbsolute_identity (hmeets.isAbsolute_resolve ⟨path⟩)
      simp only [Session.addFolder, hidentity, Project.collector, hconfig,
        Machine.collect_of_isAbsolute hdisk _ habsolute]
  | setSymbols _ _ | setOutput _ _ _ =>
      cases hupdate
      dsimp only
  | scan _ json =>
      cases hupdate
      simp only [Session.rescan, Machine.scanFiles_of_isAbsolute hdisk (hscan rfl)]
  | _ => cases hupdate

end Request

namespace Effect

variable {m other : Machine} {project projectThere : Project}

/-- The results are the same, and so are the disks. -/
structure Meet {α : Type} (here there : Except CommandError α × Machine) : Prop where
  /-- The results are the same. -/
  result : there.1 = here.1
  /-- The disks are the same. -/
  disk : there.2.disk = here.2.disk

theorem save_meet (hdisk : other.disk = m.disk)
    (hmeets : project.layout.Meets projectThere.layout)
    (hconfig : projectThere.config = project.config) {spot : Spot}
    (hfind : m.find project.layout.configPath = .ok spot) :
    Meet (save project m) (save projectThere other) := by
  have hfound := Machine.find_of_isAbsolute hdisk hmeets.isAbsolute_configPath
  rw [hfind] at hfound
  have hmade := Project.makeDirectories_metaDirectory hfind
  have hthere : other.makeDirectories projectThere.layout.metaDirectory = (other, .ok ()) :=
    Project.makeDirectories_metaDirectory (hmeets.configPath ▸ hfound)
  have hwrite := Machine.writeFile_of_isAbsolute hdisk hmeets.isAbsolute_configPath
    project.config.toJson.pretty.toUTF8
  simp only [save, ofAction, Project.save, run_bind, run_get, run_set, hmade, hthere, hconfig,
    ← hmeets.configPath]
  cases hhere : m.writeFile project.layout.configPath project.config.toJson.pretty.toUTF8 with
  | error cause =>
      rw [hhere] at hwrite
      cases hwritten : other.writeFile project.layout.configPath
          project.config.toJson.pretty.toUTF8 with
      | ok after =>
          rw [hwritten] at hwrite
          cases hwrite
      | error same =>
          rw [hwritten] at hwrite
          cases hwrite
          exact ⟨rfl, hdisk⟩
  | ok after =>
      rw [hhere] at hwrite
      cases hwritten : other.writeFile project.layout.configPath
          project.config.toJson.pretty.toUTF8 with
      | error cause =>
          rw [hwritten] at hwrite
          cases hwrite
      | ok there =>
          rw [hwritten] at hwrite
          exact ⟨rfl, Except.ok.inj hwrite⟩

end Effect

namespace Project

variable {m other : Machine} {path named : Path}

/-- A project is loaded alike through both layouts, or it cannot be loaded through either. -/
theorem load_meet (hdisk : other.disk = m.disk) (hmeets : (Layout.mk path).Meets ⟨named⟩) :
    (∃ e, load m path = .error e ∧ load other named = .error e) ∨
    ∃ config, load m path = .ok ⟨⟨path⟩, config⟩ ∧ load other named = .ok ⟨⟨named⟩, config⟩ := by
  have hread : other.readText (Layout.mk named).configPath =
      m.readText (Layout.mk path).configPath := by
    rw [← hmeets.configPath]
    exact Machine.readText_congr (Machine.find_of_isAbsolute hdisk hmeets.isAbsolute_configPath)
  unfold load
  dsimp only
  rw [hread, ← hmeets.configPath]
  cases m.readText (Layout.mk path).configPath with
  | error cause => exact .inl ⟨_, rfl, rfl⟩
  | ok text =>
      dsimp only
      generalize Json.decodeText Config.decode text = decoded
      cases decoded with
      | error cause => exact .inl ⟨_, rfl, rfl⟩
      | ok config => exact .inr ⟨config, rfl, rfl⟩

end Project

/-- A request on the session of a project has the same result and leaves the same disk, with the
same configuration, from every working directory and with every name of the root, provided that the
names are resolved, or made the same path, and that a scan has no source to read from the working
directory. -/
theorem Request.run_of_meets {m other : Machine} (hdisk : other.disk = m.disk) {root name : String}
    (hroots : m.Meets other root name) {request : Request} (hcycle : request.update?.isSome)
    (hscan : request.isScan → ∀ project, Project.openAt m root = .ok project →
      ∀ p ∈ project.config.session.sources.toList, p.isAbsolute) (host hostThere : Host) :
    let here := (request.rootedAt root).run host m
    let there := (request.rootedAt name).run hostThere other
    there.result = here.result ∧ there.machine.disk = here.machine.disk ∧
      ∀ p, p.isAbsolute → there.machine.readBytes p = here.machine.readBytes p := by
  intro here there
  have hmeet : Effect.Meet ((request.rootedAt root).effect host m)
      ((request.rootedAt name).effect hostThere other) := by
    obtain ⟨⟨_, change⟩, hupdate⟩ := Option.isSome_iff_exists.mp hcycle
    rw [effect_of_update host (update?_rootedAt hupdate root),
      effect_of_update hostThere (update?_rootedAt hupdate name)]
    obtain ⟨path, named, hpath, hnamed, hmeets⟩ := Machine.layouts_of_meets hroots
    simp only [Effect.update, Effect.openProject, Effect.andThen, Effect.ofCheck, Project.openAt,
      hpath, hnamed]
    rcases Project.load_meet hdisk hmeets with ⟨e, hload, hother⟩ | ⟨config, hload, hother⟩
    · rw [hload, hother]
      exact ⟨rfl, hdisk⟩
    · have hsources : request.isScan → ∀ p ∈ config.session.sources.toList, p.isAbsolute :=
        fun hrequest => hscan hrequest _ (Project.openAt_eq_ok_iff.mpr ⟨path, hpath, hload⟩)
      obtain ⟨spot, content, executable, hfind⟩ := Project.find_configPath_of_load hload
      have hchange : change other ⟨⟨named⟩, config⟩ config.session =
          change m ⟨⟨path⟩, config⟩ config.session :=
        change_of_meets hupdate hdisk hmeets rfl hsources
      rw [hload, hother]
      dsimp only
      rw [hchange]
      cases change m ⟨⟨path⟩, config⟩ config.session with
      | error e => exact ⟨rfl, hdisk⟩
      | ok session => exact Effect.save_meet hdisk hmeets rfl hfind
  obtain ⟨hhere, hmachine⟩ := (request.rootedAt root).run_eq_effect host m
  obtain ⟨hthere, hmachineThere⟩ := (request.rootedAt name).run_eq_effect hostThere other
  have hsame : there.machine.disk = here.machine.disk := by
    rw [hmachine, hmachineThere]
    exact hmeet.disk
  exact ⟨by rw [hhere, hthere]; exact hmeet.result, hsame,
    fun p hp => Machine.readBytes_of_isAbsolute hsame hp⟩

section Draft

/-- The draft as it is seen from the directory of its source. -/
def draftInside (config : Config) : Machine := { draft config [] with directory := ["w", "src"] }

variable (config : Config)

theorem find_dot_draft : (draft config []).find ⟨"."⟩ = .ok (.found ["w"] .directory) := by
  refine Disk.lookup_of_leads [".".toList] (by decide) rfl ?_
  exact .silent (.inr rfl) .arrived

theorem find_above_draftInside :
    (draftInside config).find ⟨".."⟩ = .ok (.found ["w"] .directory) := by
  refine Disk.lookup_of_leads ["..".toList] (by decide) rfl ?_
  exact .above .arrived

theorem reaches_draft : (draft config []).Reaches "." ["w"] := by
  refine .inl ⟨⟨_, Machine.locate_of_find (find_dot_draft config)⟩, ?_⟩
  have hpieces : Text.split '/' (Path.mk ".").text.toList = [['.']] := by decide
  rw [Machine.staysShort, hpieces, Disk.staysShort_of_silent (.inr rfl), Disk.staysShort]

theorem staysShort_above_draftInside : (draftInside config).staysShort ⟨".."⟩ := by
  have hpieces : Text.split '/' (Path.mk "..").text.toList = [['.', '.']] := by decide
  rw [Machine.staysShort, hpieces, Disk.staysShort_above, Disk.staysShort]

theorem reaches_draftInside : (draftInside config).Reaches ".." ["w"] :=
  .inl ⟨⟨_, Machine.locate_of_find (find_above_draftInside config)⟩,
    staysShort_above_draftInside config⟩

theorem namedRoot_above_draftInside : (draftInside config).namedRoot ".." = .ok ⟨"/w"⟩ := by
  have hcanonical := Machine.canonical_of_leadsTo
    ⟨_, Machine.locate_of_find (find_above_draftInside config)⟩ (staysShort_above_draftInside config)
  have hother : ¬(Path.mk "..").Same ⟨"."⟩ := by decide
  simp only [Machine.namedRoot, hother, if_false, hcanonical]
  rfl

theorem load_draft : Project.load (draft config []) ⟨"/w"⟩ = .ok ⟨draftLayout, config⟩ :=
  Project.load_of_readText (Machine.readText_of_find (find_config_draft config []))

theorem namedRoot_dot_draft : (draft config []).namedRoot "." = .ok ⟨"/w"⟩ := rfl

theorem meets_draft : (draft config []).Meets (draftInside config) "." ".." :=
  .inl ⟨["w"], reaches_draft config, reaches_draftInside config⟩

/-- The draft is scanned from two directories. -/
theorem run_of_meets_draft :
    ((draftInside draftConfig).disk = (draft draftConfig []).disk ∧
      (draft draftConfig []).Meets (draftInside draftConfig) "." ".." ∧
      (Request.scan "" false).update?.isSome ∧
      ∀ project, Project.openAt (draft draftConfig []) "." = .ok project →
        ∀ p ∈ project.config.session.sources.toList, p.isAbsolute) ∧
    ((Request.scan ".." false).run .idle (draftInside draftConfig)).result =
      ((Request.scan "." false).run .idle (draft draftConfig [])).result ∧
    ((Request.scan ".." false).run .idle (draftInside draftConfig)).machine.disk =
      ((Request.scan "." false).run .idle (draft draftConfig [])).machine.disk := by
  have hsources : ∀ project, Project.openAt (draft draftConfig []) "." = .ok project →
      ∀ p ∈ project.config.session.sources.toList, p.isAbsolute := by
    intro project hopen
    obtain ⟨path, hpath, hload⟩ := Project.openAt_eq_ok_iff.mp hopen
    cases (namedRoot_dot_draft draftConfig).symm.trans hpath
    cases (load_draft draftConfig).symm.trans hload
    intro p hp
    obtain rfl := List.mem_singleton.mp hp
    decide
  obtain ⟨hresult, hdisk, -⟩ := @Request.run_of_meets (draft draftConfig [])
    (draftInside draftConfig) rfl _ _ (meets_draft draftConfig) (.scan "" false) rfl
    (fun _ => hsources) .idle .idle
  rw [Request.rootedAt, Request.rootedAt] at hresult hdisk
  exact ⟨⟨rfl, meets_draft draftConfig, rfl, hsources⟩, hresult, hdisk⟩

/-- A configuration with a source that is read from the working directory. -/
def relativeConfig : Config :=
  (Config.new "demo").withSession { Session.empty with sources := PathSet.empty.insert ⟨"a.cs"⟩ }

theorem rescan_draftInside : relativeConfig.session.rescan (draftInside relativeConfig) =
    .ok (relativeConfig.session.withSymbols (.ofList ["NEW"])) := by
  have hfind : (draftInside relativeConfig).find ⟨"a.cs"⟩ =
      .ok (.found ["w", "src", "a.cs"] (.file "#if NEW".toUTF8 false)) := by
    refine Disk.lookup_of_leads ["a.cs".toList] (by decide) rfl ?_
    exact .file (by decide) rfl
  have hscan := Machine.scanFile_of_readBytes (Machine.readBytes_of_find hfind)
  rw [scanContent_draft] at hscan
  refine Session.rescan_eq_ok_iff.mpr ⟨_, ?_, rfl⟩
  have hsources : relativeConfig.session.sources.toList = [⟨"a.cs"⟩] := rfl
  simp only [hsources, Machine.scanFiles, Machine.scanFilesFrom, hscan]
  rfl

theorem rescan_relativeConfig :
    relativeConfig.session.rescan (draft relativeConfig []) = .error ⟨⟨"a.cs"⟩, .notFound⟩ := by
  have hfind : (draft relativeConfig []).find ⟨"a.cs"⟩ = .ok (.vacant ["w", "a.cs"] false) := by
    refine Disk.lookup_of_leads ["a.cs".toList] (by decide) rfl ?_
    exact .vacant (by decide) rfl rfl
  have hread : (draft relativeConfig []).readBytes ⟨"a.cs"⟩ = .error .notFound := by
    rw [Machine.readBytes, hfind]
    rfl
  have hsources : relativeConfig.session.sources.toList = [⟨"a.cs"⟩] := rfl
  simp only [Session.rescan, hsources, Machine.scanFiles, Machine.scanFilesFrom, Machine.scanFile,
    hread]
  rfl

/-- A project in the directory that is too deep. -/
def deepProject (directory : Place) : Machine where
  disk := shaft [([".dll-forge"], .directory),
    ([".dll-forge", "project.json"], .file (Config.new "demo").toJson.pretty.toUTF8 false)]
  directory := directory
  environment := []

theorem openAt_deepProject :
    Project.openAt (deepProject []) "/a" = .ok ⟨⟨⟨"/a"⟩⟩, Config.new "demo"⟩ := by
  have hfind : (deepProject []).find (Layout.mk ⟨"/a"⟩).configPath =
      .ok (.found (rungs 17 ++ [".dll-forge", "project.json"])
        (.file (Config.new "demo").toJson.pretty.toUTF8 false)) := by
    refine Disk.lookup_of_leads
      ["".toList, ['a'], ".dll-forge".toList, "project.json".toList] (by decide) rfl ?_
    refine Disk.leads_shaft (.inl rfl) fun links => ?_
    have hmeta : (deepProject []).disk.at? (rungs 17 ++ [".dll-forge"]) = some .directory :=
      (Disk.at?_concat (Disk.at?_rungs (Nat.le_refl 17))).trans
        (Disk.noted?_bottom (List.cons_ne_nil _ _))
    have hconfig : (deepProject []).disk.at? (rungs 17 ++ [".dll-forge"] ++ ["project.json"]) =
        some (.file (Config.new "demo").toJson.pretty.toUTF8 false) := by
      rw [Disk.at?_concat hmeta, List.append_assoc]
      exact Disk.noted?_bottom (List.cons_ne_nil _ _)
    exact .directory (by decide) hmeta (.file (by decide) hconfig)
  have hlong : (deepProject []).staysShort ⟨"/a"⟩ = false :=
    (Machine.identity_of_shaft rfl (by decide) (.inl rfl) rfl).1
  have hroot := Machine.namedRoot_of_unresolved (by decide) (fun _ _ => hlong) Disk.at?_root
  have hjoin : (deepProject []).directory.path.join ⟨"/a"⟩ = ⟨"/a"⟩ :=
    Path.join_of_isAbsolute _ (by decide)
  rw [hjoin] at hroot
  exact Project.openAt_of_find hroot hfind

theorem split_rung : Text.split '/' (Path.mk rung).text.toList = [rung.toList] :=
  Text.split_of_not_mem isEntryName_rung.slashless

theorem isAbsolute_rung : (Path.mk rung).isAbsolute = false := isEntryName_rung.isName.isAbsolute

theorem rungs_succ (count : Nat) : rungs (count + 1) = rungs count ++ [rung] :=
  List.replicate_succ'

theorem size_bottom : (rungs 17).path.text.utf8ByteSize = 4267 := size_path_rungs 16

/-- The name of the directory leads there from the one above it. -/
theorem leadsTo_rung_deepProject : (deepProject (rungs 16)).LeadsTo ⟨rung⟩ (rungs 17) := by
  have habove : (deepProject (rungs 16)).disk.at? (rungs 16) = some .directory :=
    Disk.at?_rungs (by decide)
  have hbottom : (deepProject (rungs 16)).disk.at? (rungs 16 ++ [.ofList rung.toList]) =
      some .directory := by
    rw [String.ofList_toList, ← rungs_succ]
    exact Disk.at?_rungs (Nat.le_refl 17)
  have hleads := @Disk.Leads.directory _ true linkLimit (rungs 16) _ _ _ isEntryName_rung.named
    hbottom .arrived
  have hwritten : rung.isEmpty = false := by
    refine Bool.eq_false_iff.mpr fun hempty => ?_
    have hsize := size_rung
    rw [String.isEmpty_iff.mp hempty] at hsize
    cases hsize
  rw [String.ofList_toList, ← rungs_succ] at hleads
  refine ⟨.directory, Disk.locate_eq_ok_iff.mpr ⟨isEntryName_rung.clean, hwritten, ?_, ?_⟩⟩
  · rw [Disk.origin, isAbsolute_rung]
    exact habove
  · rw [Disk.origin, isAbsolute_rung, split_rung]
    exact hleads

/-- The path of the configuration there is too long. -/
theorem find_config_bottom (m : Machine) :
    m.find (Layout.mk (rungs 17).path).configPath = .error .nameTooLong := by
  have hmeta : IsEntryName ".dll-forge" := by decide
  have hfile : IsEntryName "project.json" := by decide
  have hbottom := @isEntryName_of_mem_rungs 17
  have hnames := List.forall_mem_append.mpr ⟨hbottom, List.forall_mem_singleton.mpr hmeta⟩
  have hall := List.forall_mem_append.mpr ⟨hnames, List.forall_mem_singleton.mpr hfile⟩
  have hconfig : (Layout.mk (rungs 17).path).configPath =
      Place.path (rungs 17 ++ [".dll-forge"] ++ ["project.json"]) := by
    rw [← Path.join_path hnames hfile, ← Path.join_path hbottom hmeta]
    rfl
  have hsize := Disk.size_path_le_append (rungs 17) [".dll-forge", "project.json"]
  have hlong : pathLimit < 4267 := by decide
  rw [size_bottom, List.append_cons] at hsize
  rw [hconfig, Machine.find, Disk.lookup,
    if_pos ⟨Nat.lt_of_lt_of_le hlong hsize, Place.clean_path hall⟩]

theorem openAt_rung_deepProject (project : Project) :
    Project.openAt (deepProject (rungs 16)) rung ≠ .ok project := by
  have hhere : (deepProject (rungs 16)).directory = rungs 16 := rfl
  have hlong : (deepProject (rungs 16)).staysShort ⟨rung⟩ = false := by
    rw [Machine.staysShort, split_rung, Disk.origin, isAbsolute_rung,
      Disk.staysShort_cons isEntryName_rung.named.spoken isEntryName_rung.named.notAbove,
      String.ofList_toList, if_neg Bool.false_ne_true, hhere, ← rungs_succ, size_bottom,
      if_pos (by decide)]
  have hother : ¬(Path.mk rung).Same ⟨"."⟩ := by
    intro hsame
    have hsaid : Path.Component.entry rung ∈ (Path.mk rung).said := by
      rw [Path.said_name isEntryName_rung]
      exact List.mem_cons_self
    have hmem : Path.Component.entry rung ∈ (Path.mk rung).components :=
      List.mem_append_right _ hsaid
    have hdot : (Path.mk ".").components = [.current] := rfl
    rw [hsame, hdot] at hmem
    cases List.mem_singleton.mp hmem
  have habove : (deepProject (rungs 16)).disk.at? (rungs 16) = some .directory :=
    Disk.at?_rungs (by decide)
  have hroot := Machine.namedRoot_of_unresolved hother (fun _ _ => hlong) habove
  rw [hhere, Path.join_path isEntryName_of_mem_rungs isEntryName_rung, ← rungs_succ] at hroot
  intro hopen
  obtain ⟨path, hpath, hload⟩ := Project.openAt_eq_ok_iff.mp hopen
  obtain rfl : (rungs 17).path = path := Except.ok.inj (hroot.symm.trans hpath)
  obtain ⟨spot, content, executable, hfind⟩ := Project.find_configPath_of_load hload
  obtain ⟨text, config, -, -, rfl⟩ := Project.load_eq_ok_iff.mp hload
  dsimp only at hfind
  rw [find_config_bottom] at hfind
  cases hfind

/-- A source that is read from the working directory is found from one directory only, and a project
that is too deep is found through a link from the root but not from the directory above it. -/
theorem scan_from_directories :
    ((draftInside relativeConfig).disk = (draft relativeConfig []).disk ∧
      (draft relativeConfig []).LeadsTo ⟨"."⟩ ["w"] ∧
      (draftInside relativeConfig).LeadsTo ⟨".."⟩ ["w"] ∧
      ((Request.scan ".." false).run .idle (draftInside relativeConfig)).result = .ok () ∧
      ((Request.scan "." false).run .idle (draft relativeConfig [])).result ≠ .ok ()) ∧
    (deepProject (rungs 16)).disk = (deepProject []).disk ∧
    (deepProject []).LeadsTo ⟨"/a"⟩ (rungs 17) ∧
    (deepProject (rungs 16)).LeadsTo ⟨rung⟩ (rungs 17) ∧
    ((Request.scan "/a" false).run .idle (deepProject [])).result = .ok () ∧
    ((Request.scan rung false).run .idle (deepProject (rungs 16))).result ≠ .ok () := by
  refine ⟨⟨rfl, ⟨_, Machine.locate_of_find (find_dot_draft relativeConfig)⟩,
    ⟨_, Machine.locate_of_find (find_above_draftInside relativeConfig)⟩, ?_, ?_⟩, rfl, ?_, ?_, ?_,
    ?_⟩
  · have hroot : (draftInside relativeConfig).namedRoot ".." = .ok ⟨"/w"⟩ :=
      namedRoot_above_draftInside relativeConfig
    have hfind : (draftInside relativeConfig).find draftLayout.configPath =
        (draft relativeConfig []).find draftLayout.configPath :=
      Machine.find_of_isAbsolute rfl (by decide)
    exact Request.scan_of_rescan
      (Project.openAt_of_find hroot (hfind.trans (find_config_draft relativeConfig [])))
      rescan_draftInside
  · intro hscan
    obtain ⟨project, session, hopen, hrescan, -, -⟩ := Request.run_scan hscan
    obtain ⟨path, hpath, hload⟩ := Project.openAt_eq_ok_iff.mp hopen
    cases (namedRoot_dot_draft relativeConfig).symm.trans hpath
    cases (load_draft relativeConfig).symm.trans hload
    rw [rescan_relativeConfig] at hrescan
    cases hrescan
  · exact ⟨_, Disk.locate_of_lookup <| Disk.lookup_of_leads ["".toList, ['a']] (by decide) rfl
      (Disk.leads_shaft (.inl rfl) fun links => .arrived)⟩
  · exact leadsTo_rung_deepProject
  · exact Request.scan_of_rescan openAt_deepProject rfl
  · intro hscan
    obtain ⟨project, session, hopen, -⟩ := Request.run_scan hscan
    exact openAt_rung_deepProject project hopen

end Draft

end ScriptAssembly
