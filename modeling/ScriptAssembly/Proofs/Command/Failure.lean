import ScriptAssembly.Proofs.Command.Stamping

/-!
# What a failed request leaves

A request that fails leaves every place as it was, or it has made a directory where nothing stood:
starting a project makes the directory of its own files, a build that of its binary or of its stamp.
The one exception is a build that saved the symbols it found before it failed.
-/

namespace ScriptAssembly

variable {place : Place} {m after : Machine}

namespace Effect

/-- Saving makes the directory for the configuration and then writes it or fails. -/
theorem machine_of_save (project : Project) (m : Machine) :
    let made := (m.makeDirectories project.layout.metaDirectory).1
    (save project m).2 = made ∨ ∃ place executable,
      made.Writes project.layout.configPath project.config.toJson.pretty.toUTF8 place executable
        (save project m).2 := by
  rcases project.run_save_made m with ⟨e, hfails⟩ | ⟨after, place, executable, hsaves, hwrites⟩
  · rw [save, ofAction, hfails]
    exact .inl rfl
  · rw [save, ofAction, hsaves]
    exact .inr ⟨place, executable, hwrites⟩

/-- A project is started only where no configuration is found. -/
theorem init_cases (root : String) (name : Option String) (m : Machine) :
    (∃ e, init root name m = (.error e, m)) ∨
    ∃ base, m.namedRoot root = .ok base ∧ m.hasEntry (Layout.mk base).configPath = false ∧
      init root name m = save (Project.initial m base name) m := by
  simp only [init, andThen, ofCheck]
  cases hroot : m.namedRoot root with
  | error cause => exact .inl ⟨_, rfl⟩
  | ok base =>
      simp only [Except.mapError]
      cases hentry : m.hasEntry (Layout.mk base).configPath with
      | true => exact .inl ⟨_, rfl⟩
      | false => exact .inr ⟨base, rfl, hentry, rfl⟩

end Effect

/-- What is handed over has a directory made at a place where nothing stood: the one for the binary,
or after the compiler has run the one for the stamp. -/
def Handover.Makes (handed : Handover) (ready : Machine) (place : Place) : Prop :=
  let made := (((Compiler.makeOutputDirectory handed.descriptor).run).run ready).2
  let compiled := (((handed.backend.compile handed.descriptor).run).run ready).2
  ready.disk.at? place = none ∧
    (compiled.disk.at? place = some .directory ∧ made.disk.at? place = some .directory ∨
      compiled.disk.at? place = none ∧
        (compiled.makeDirectories handed.layout.metaDirectory).1.disk.at? place = some .directory)

/-- The request makes a directory at the place: starting a project the one for its own files, a
build the one for its binary or its stamp. -/
def Request.Makes (host : Host) (m : Machine) (request : Request) (place : Place) : Prop :=
  match request with
  | .initProject root _ => ∃ base, m.namedRoot root = .ok base ∧
      (m.makeDirectories (Layout.mk base).metaDirectory).1.disk.at? place = some .directory
  | request => ∃ handover handed ready, request.handover? host = some handover ∧
      handover m = (.ok handed, ready) ∧ handed.Makes ready place

section Stray

theorem Manifest.ofText_pretty {p : Path} (hjson : p.extension? = some "json")
    (manifest : Manifest) : ofText p manifest.toJson.pretty = .ok manifest := by
  simp only [ofText, hjson, decode_pretty]

/-- A manifest that has been written in JSON is loaded as it was. -/
theorem Manifest.load_pretty {m : Machine} {p : Path} {manifest : Manifest}
    (hread : m.readText p = .ok manifest.toJson.pretty) (hjson : p.extension? = some "json")
    (hflaw : manifest.flaw? = none) : load m p = .ok manifest := by
  simp only [load, hread, ofText_pretty hjson, hflaw, bind, Except.bind]
  rfl

end Stray

end ScriptAssembly
