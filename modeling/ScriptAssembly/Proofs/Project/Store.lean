import ScriptAssembly.Project.Store
import ScriptAssembly.Proofs.Action
import ScriptAssembly.Proofs.Machine.Shape
import ScriptAssembly.Proofs.Persistence

/-!
# Loading what was saved

A project is loaded from the text of its configuration and from nothing else, so a project that has
been written to its configuration is loaded as it was.
-/

namespace ScriptAssembly.Project

variable {m after : Machine} {root : Path} {project : Project}

@[simp]
theorem layout_withSession (session : Session) :
    (project.withSession session).layout = project.layout := rfl

theorem load_eq_ok_iff :
    load m root = .ok project ↔
      ∃ text config, m.readText (Layout.mk root).configPath = .ok text ∧
        Json.decodeText Config.decode text = .ok config ∧ project = ⟨⟨root⟩, config⟩ := by
  unfold load
  dsimp only
  cases hread : m.readText (Layout.mk root).configPath with
  | error cause => simp
  | ok text =>
      dsimp only
      generalize hdecoded : Json.decodeText Config.decode text = decoded
      cases decoded with
      | error cause =>
          constructor
          · intro hload
            cases hload
          · rintro ⟨other, config, hother, hdecode, -⟩
            cases hother
            rw [hdecoded] at hdecode
            cases hdecode
      | ok config =>
          constructor
          · intro hload
            cases hload
            exact ⟨text, config, rfl, hdecoded, rfl⟩
          · rintro ⟨other, config, hother, hdecode, rfl⟩
            cases hother
            rw [hdecoded] at hdecode
            cases hdecode
            rfl

theorem openAt_eq_ok_iff {name : String} :
    openAt m name = .ok project ↔
      ∃ root, m.namedRoot name = .ok root ∧ load m root = .ok project := by
  unfold openAt
  cases m.namedRoot name with
  | error cause => simp
  | ok root => simp

/-- A project that can be loaded has its configuration in a file. -/
theorem find_configPath_of_load (hload : load m root = .ok project) :
    ∃ place content executable,
      m.find project.layout.configPath = .ok (.found place (.file content executable)) := by
  obtain ⟨text, config, hread, -, rfl⟩ := load_eq_ok_iff.mp hload
  exact Machine.find_of_readText hread

theorem load_congr (hread : after.readText (Layout.mk root).configPath =
    m.readText (Layout.mk root).configPath) : load after root = load m root := by
  unfold load
  dsimp only
  rw [hread]

theorem load_of_readText {config : Config}
    (hread : m.readText (Layout.mk root).configPath = .ok config.toJson.pretty) :
    load m root = .ok ⟨⟨root⟩, config⟩ :=
  load_eq_ok_iff.mpr ⟨_, config, hread, Config.decode_pretty config, rfl⟩

/-- A project is opened where its root is named and its configuration is in a file. -/
theorem openAt_of_find {config : Config} {name : String} {place : Place} {executable : Bool}
    (hroot : m.namedRoot name = .ok root)
    (hconfig : m.find (Layout.mk root).configPath =
      .ok (.found place (.file config.toJson.pretty.toUTF8 executable))) :
    openAt m name = .ok ⟨⟨root⟩, config⟩ :=
  openAt_eq_ok_iff.mpr ⟨root, hroot, load_of_readText (Machine.readText_of_find hconfig)⟩

/-- A configuration that has been written is loaded as it was. -/
theorem load_of_writes {config : Config} {place : Place} {executable : Bool}
    (hwrites : m.Writes (Layout.mk root).configPath config.toJson.pretty.toUTF8 place executable
      after) : load after root = .ok ⟨⟨root⟩, config⟩ :=
  load_of_readText (Machine.readText_of_find hwrites.find_written)

/-- Where a configuration is in a file, the directory of the project's own files is there. -/
theorem makeDirectories_metaDirectory {l : Layout} {spot : Spot}
    (hconfig : m.find l.configPath = .ok spot) :
    m.makeDirectories l.metaDirectory = (m, .ok ()) := by
  obtain ⟨directory, hfound⟩ :=
    Disk.lookup_front l.endsNamed_metaDirectory ⟨by decide, by decide⟩ hconfig
  exact Machine.makeDirectories_of_found l.endsNamed_metaDirectory hfound

theorem run_save_of_writeFile {made : Machine}
    (hmade : m.makeDirectories project.layout.metaDirectory = (made, .ok ()))
    (hwrite : made.writeFile project.layout.configPath project.config.toJson.pretty.toUTF8 =
      .ok after) : (project.save.run).run m = (.ok (), after) := by
  simp only [save, run_bind, run_get, run_set, hmade, hwrite]

/-- Saving makes the directory for the configuration.  Then it fails, or it writes the
configuration. -/
theorem run_save_made (project : Project) (m : Machine) :
    let made := (m.makeDirectories project.layout.metaDirectory).1
    (∃ e, (project.save.run).run m = (.error e, made)) ∨
    ∃ after place executable, (project.save.run).run m = (.ok (), after) ∧
      made.Writes project.layout.configPath project.config.toJson.pretty.toUTF8 place
        executable after := by
  simp only [save, run_bind, run_get]
  rcases m.makeDirectories project.layout.metaDirectory with ⟨made, cause | _⟩
  · exact .inl ⟨_, rfl⟩
  · simp only [run_set]
    cases hwrite : made.writeFile project.layout.configPath
        project.config.toJson.pretty.toUTF8 with
    | error cause => exact .inl ⟨_, rfl⟩
    | ok after =>
        obtain ⟨place, executable, hwrites⟩ := Machine.writes_of_writeFile hwrite
        exact .inr ⟨after, place, executable, rfl, hwrites⟩

/-- A project is saved as a whole or not at all. -/
theorem run_save_cases (project : Project) (m : Machine) :
    (∃ e after, (project.save.run).run m = (.error e, after) ∧ m.Grows after) ∨
    ∃ between after place executable, (project.save.run).run m = (.ok (), after) ∧
      m.Grows between ∧
      between.Writes project.layout.configPath project.config.toJson.pretty.toUTF8 place
        executable after := by
  have hgrows := m.grows_makeDirectories project.layout.metaDirectory
  rcases run_save_made project m with ⟨e, hfails⟩ | ⟨after, place, executable, hsaves, hwrites⟩
  · exact .inl ⟨e, _, hfails, hgrows⟩
  · exact .inr ⟨_, after, place, executable, hsaves, hgrows, hwrites⟩

/-- Saving a project whose configuration is in a file always succeeds. -/
theorem run_save_of_find {place : Place} {content : ByteArray} {executable : Bool}
    (hconfig : m.find project.layout.configPath = .ok (.found place (.file content executable))) :
    ∃ after, (project.save.run).run m = (.ok (), after) ∧
      m.Writes project.layout.configPath project.config.toJson.pretty.toUTF8 place executable
        after := by
  obtain ⟨after, hwrite, hwrites⟩ :=
    Machine.writes_of_found project.config.toJson.pretty.toUTF8 hconfig
  have hmade := makeDirectories_metaDirectory hconfig
  exact ⟨after, run_save_of_writeFile hmade hwrite, hwrites⟩

/-- A project that has been opened is saved with any session, and it is then opened with that
session. -/
theorem saved_of_openAt {name : String} (hopen : openAt m name = .ok project) (session : Session) :
    ∃ after place content executable,
      ((project.withSession session).save.run).run m = (.ok (), after) ∧
      m.find project.layout.configPath = .ok (.found place (.file content executable)) ∧
      m.Writes project.layout.configPath (project.withSession session).config.toJson.pretty.toUTF8
        place executable after ∧
      openAt after name = .ok (project.withSession session) := by
  obtain ⟨root, hroot, hload⟩ := openAt_eq_ok_iff.mp hopen
  obtain ⟨place, content, executable, hconfig⟩ := find_configPath_of_load hload
  obtain ⟨text, config, -, -, rfl⟩ := load_eq_ok_iff.mp hload
  obtain ⟨after, hsave, hwrites⟩ :=
    @run_save_of_find _ ((Project.mk ⟨root⟩ config).withSession session) _ _ _ hconfig
  refine ⟨after, place, content, executable, hsave, hconfig, hwrites, ?_⟩
  refine openAt_eq_ok_iff.mpr ⟨root, ?_, load_of_writes hwrites⟩
  rw [(hwrites.alike hconfig).namedRoot]
  exact hroot

end ScriptAssembly.Project
