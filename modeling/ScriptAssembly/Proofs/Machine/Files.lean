import ScriptAssembly.Machine
import ScriptAssembly.Proofs.Machine.Lookup

/-!
# Writing files and making directories

Writing a file changes one place, the one that its path leads to, and the path leads there
afterwards.  Making directories adds directories where nothing stood.  Both keep every path that led
to an entry.
-/

namespace ScriptAssembly

namespace Disk

variable {d : Disk} {place : Place} {old : Entry}

/-- An entry that takes the place of another one, which is no directory, changes nothing else. -/
theorem at?_replace_of_some (hplace : d.at? place = some old) (hold : old ≠ .directory)
    (entry : Entry) (other : Place) :
    (d.replace place entry).at? other = if other = place then some entry else d.at? other := by
  have hroot : place ≠ [] := by
    rintro rfl
    rw [at?_root] at hplace
    exact hold (Option.some.inj hplace).symm
  obtain ⟨parent, name, rfl⟩ : ∃ parent name, place = parent ++ [name] :=
    ⟨_, _, (List.dropLast_concat_getLast hroot).symm⟩
  have hparent : d.at? parent = some .directory :=
    at?_eq_directory_of_below (List.prefix_append parent [name]) (by simp) hplace
  refine at?_replace hparent ?_ entry other
  rw [hplace]
  intro hsame
  exact hold (Option.some.inj hsame)

end Disk

namespace Machine

variable {m after : Machine} {p : Path} {place other : Place} {entry : Entry}
  {content : ByteArray} {executable : Bool}

/-- The working directory and the variables are the same. -/
structure SameSetting (before after : Machine) : Prop where
  /-- The working directory is the same. -/
  directory : after.directory = before.directory
  /-- The variables are the same. -/
  environment : after.environment = before.environment

theorem SameSetting.refl (m : Machine) : m.SameSetting m := ⟨rfl, rfl⟩

theorem SameSetting.trans {first second third : Machine} (hfirst : first.SameSetting second)
    (hsecond : second.SameSetting third) : first.SameSetting third :=
  ⟨hsecond.directory.trans hfirst.directory, hsecond.environment.trans hfirst.environment⟩

theorem SameSetting.symm (hsame : m.SameSetting after) : after.SameSetting m :=
  ⟨hsame.directory.symm, hsame.environment.symm⟩

theorem entry?_eq_some_iff :
    m.entry? p = some (place, entry) ↔ m.find p = .ok (.found place entry) := by
  unfold entry?
  rcases m.find p with e | ⟨known, found⟩ | ⟨known, slashed⟩ <;> simp

theorem entry?_congr (hfind : after.find p = m.find p) : after.entry? p = m.entry? p := by
  unfold entry?
  rw [hfind]

theorem find_found_of_keeps (hsetting : m.SameSetting after) (hkeeps : m.disk.Keeps after.disk)
    (hfind : m.find p = .ok (.found place entry)) {kept : Entry}
    (hkept : after.disk.at? place = some kept) : after.find p = .ok (.found place kept) := by
  rw [find, hsetting.directory]
  exact Disk.lookup_found_of_keeps hfind hkeeps hkept

/-- A file with the content stands at a place that the path leads to, and nothing else has
changed. -/
structure Writes (m : Machine) (p : Path) (content : ByteArray) (place : Place)
    (executable : Bool) (after : Machine) : Prop where
  /-- The setting is the same. -/
  setting : m.SameSetting after
  /-- Only the place has changed. -/
  disk : ∀ other, after.disk.at? other =
    if other = place then some (.file content executable) else m.disk.at? other
  /-- The path led to a file there, or nothing stood there. -/
  spot : (∃ old, m.find p = .ok (.found place (.file old executable))) ∨
    (m.find p = .ok (.vacant place false) ∧ executable = false)

theorem writes_of_writeFile (hwrite : m.writeFile p content = .ok after) :
    ∃ place executable, m.Writes p content place executable after := by
  unfold writeFile at hwrite
  cases hfind : m.find p with
  | error cause =>
      rw [hfind] at hwrite
      cases hwrite
  | ok spot =>
      rw [hfind] at hwrite
      have hstands := Disk.lookup_stands hfind
      rcases spot with ⟨place, - | ⟨old, executable⟩ | target⟩ | ⟨place, - | -⟩
      · cases hwrite
      · cases hwrite
        refine ⟨place, executable, ⟨rfl, rfl⟩, ?_, .inl ⟨old, hfind⟩⟩
        exact Disk.at?_replace_of_some hstands (by simp) _
      · cases hwrite
      · cases hwrite
        obtain ⟨hvacant, parent, name, rfl, hparent⟩ := hstands
        refine ⟨_, false, ⟨rfl, rfl⟩, ?_, .inr ⟨hfind, rfl⟩⟩
        exact Disk.at?_replace hparent (by simp [hvacant]) _
      · cases hwrite

namespace Writes

variable (hwrites : m.Writes p content place executable after)

include hwrites

theorem at?_place : after.disk.at? place = some (.file content executable) := by
  rw [hwrites.disk, if_pos rfl]

theorem keeps : m.disk.Keeps after.disk := by
  intro other entry hentry
  by_cases hsame : other = place
  · subst hsame
    refine ⟨_, hwrites.at?_place, .inr ⟨rfl, ?_⟩⟩
    rcases hwrites.spot with ⟨old, hfind⟩ | ⟨hfind, -⟩
    · have hstands : m.disk.at? other = some (.file old executable) := Disk.lookup_stands hfind
      rw [hstands] at hentry
      cases hentry
      rfl
    · have hstands := Disk.lookup_stands hfind
      rw [hstands.1] at hentry
      cases hentry
  · refine ⟨entry, ?_, .inl rfl⟩
    rw [hwrites.disk, if_neg hsame, hentry]

theorem find_written : after.find p = .ok (.found place (.file content executable)) := by
  rcases hwrites.spot with ⟨old, hfind⟩ | ⟨hfind, -⟩
  · exact find_found_of_keeps hwrites.setting hwrites.keeps hfind hwrites.at?_place
  · rw [find, hwrites.setting.directory]
    exact Disk.lookup_found_of_vacant hfind hwrites.keeps hwrites.at?_place

/-- A file that the path led to is written in its place and may be run as before. -/
theorem eq_of_find {written : Place} {old : ByteArray} {mode : Bool}
    (hfind : m.find p = .ok (.found written (.file old mode))) :
    place = written ∧ executable = mode := by
  rcases hwrites.spot with ⟨other, hfound⟩ | ⟨hvacant, -⟩
  · rw [hfound] at hfind
    cases hfind
    exact ⟨rfl, rfl⟩
  · rw [hvacant] at hfind
    cases hfind

/-- Every entry was there before if the path led to a file. -/
theorem keeps_back {written : Place} {old : ByteArray} {mode : Bool}
    (hfind : m.find p = .ok (.found written (.file old mode))) : after.disk.Keeps m.disk := by
  intro other entry hentry
  by_cases hsame : other = place
  · obtain ⟨rfl, rfl⟩ := hwrites.eq_of_find hfind
    rw [hsame, hwrites.at?_place] at hentry
    cases hentry
    have hstands : m.disk.at? place = some (.file old executable) := Disk.lookup_stands hfind
    exact ⟨_, hsame ▸ hstands, .inr ⟨rfl, rfl⟩⟩
  · rw [hwrites.disk, if_neg hsame] at hentry
    exact ⟨entry, hentry, .inl rfl⟩

theorem find_other {q : Path} (hfind : m.find q = .ok (.found other entry))
    (hother : other ≠ place) : after.find q = .ok (.found other entry) := by
  refine find_found_of_keeps hwrites.setting hwrites.keeps hfind ?_
  rw [hwrites.disk, if_neg hother]
  exact Disk.lookup_stands hfind

end Writes

/-- A file that is found can be written. -/
theorem writes_of_found {old : ByteArray} (content : ByteArray)
    (hfind : m.find p = .ok (.found place (.file old executable))) :
    ∃ after, m.writeFile p content = .ok after ∧ m.Writes p content place executable after := by
  have hwrite : m.writeFile p content = .ok (m.put place (.file content executable)) := by
    rw [writeFile, hfind]
    rfl
  obtain ⟨written, mode, hwrites⟩ := writes_of_writeFile hwrite
  obtain ⟨rfl, rfl⟩ := hwrites.eq_of_find hfind
  exact ⟨_, hwrite, hwrites⟩

/-- A file can be written where nothing stands. -/
theorem writes_of_vacant (content : ByteArray) (hfind : m.find p = .ok (.vacant place false)) :
    ∃ after, m.writeFile p content = .ok after ∧ m.Writes p content place false after := by
  have hwrite : m.writeFile p content = .ok (m.put place (.file content false)) := by
    rw [writeFile, hfind]
    rfl
  obtain ⟨written, mode, hwrites⟩ := writes_of_writeFile hwrite
  rcases hwrites.spot with ⟨other, hfound⟩ | ⟨hvacant, rfl⟩
  · rw [hfound] at hfind
    cases hfind
  · rw [hvacant] at hfind
    cases hfind
    exact ⟨_, hwrite, hwrites⟩

theorem readBytes_of_find (hfind : m.find p = .ok (.found place (.file content executable))) :
    m.readBytes p = .ok content := by
  rw [readBytes, hfind]
  rfl

theorem readText_of_find {text : String}
    (hfind : m.find p = .ok (.found place (.file text.toUTF8 executable))) :
    m.readText p = .ok text := by
  have htext : String.fromUTF8? text.toUTF8 = some text := by
    simp only [String.fromUTF8?, String.toUTF8_eq_toByteArray, dif_pos text.isValidUTF8]
    rfl
  rw [readText, readBytes_of_find hfind]
  simp only [bind, Except.bind, htext]
  rfl

/-- What can be read stands in a file. -/
theorem find_of_readBytes (hread : m.readBytes p = .ok content) :
    ∃ place executable, m.find p = .ok (.found place (.file content executable)) := by
  unfold readBytes at hread
  cases hfind : m.find p with
  | error cause =>
      rw [hfind] at hread
      cases hread
  | ok spot =>
      rw [hfind] at hread
      rcases spot with ⟨place, - | ⟨held, executable⟩ | target⟩ | ⟨place, slashed⟩
      · cases hread
      · cases hread
        exact ⟨place, executable, rfl⟩
      · cases hread
      · cases hread

theorem find_of_readText {text : String} (hread : m.readText p = .ok text) :
    ∃ place content executable, m.find p = .ok (.found place (.file content executable)) := by
  unfold readText at hread
  cases hbytes : m.readBytes p with
  | error cause =>
      rw [hbytes] at hread
      cases hread
  | ok content =>
      obtain ⟨place, executable, hfind⟩ := find_of_readBytes hbytes
      exact ⟨place, content, executable, hfind⟩

theorem readText_congr (hfind : after.find p = m.find p) : after.readText p = m.readText p := by
  rw [readText, readText, readBytes, readBytes, hfind]

/-- The setting is the same, and the disk has grown by directories at most. -/
structure Grows (before after : Machine) : Prop where
  /-- The setting is the same. -/
  setting : before.SameSetting after
  /-- The disk has grown by directories. -/
  disk : before.disk.Grows after.disk

theorem Grows.refl (m : Machine) : m.Grows m := ⟨.refl m, .refl m.disk⟩

theorem Grows.trans {first second third : Machine} (hfirst : first.Grows second)
    (hsecond : second.Grows third) : first.Grows third :=
  ⟨hfirst.setting.trans hsecond.setting, hfirst.disk.trans hsecond.disk⟩

theorem grows_of_makeDirectory (hmake : m.makeDirectory p = .ok after) : m.Grows after := by
  unfold makeDirectory at hmake
  cases hlookup : m.disk.lookup m.directory false p.withoutEndSlashes with
  | error cause =>
      rw [hlookup] at hmake
      cases hmake
  | ok spot =>
      rw [hlookup] at hmake
      cases spot with
      | found place entry => cases hmake
      | vacant place slashed =>
          cases hmake
          obtain ⟨hvacant, parent, name, rfl, hparent⟩ := Disk.lookup_stands hlookup
          refine ⟨⟨rfl, rfl⟩, fun other => ?_⟩
          have hfree : m.disk.at? (parent ++ [name]) ≠ some .directory := by simp [hvacant]
          have hentry := Disk.at?_replace hparent hfree .directory other
          by_cases hsame : other = parent ++ [name]
          · rw [if_pos hsame] at hentry
            exact .inr ⟨hsame ▸ hvacant, hentry⟩
          · rw [if_neg hsame] at hentry
            exact .inl hentry

/-- Directories are made one by one: what each step keeps they all keep. -/
theorem makeDirectoriesFrom_induction {R : Machine → Machine → Prop} (hrefl : ∀ m, R m m)
    (htrans : ∀ {first second third}, R first second → R second third → R first third)
    (steps : Nat) (m : Machine) (p : Path)
    (hmakes : ∀ {above m after}, above.IsAbove p → m.makeDirectory above = .ok after → R m after) :
    R m (makeDirectoriesFrom steps m p).1 := by
  induction steps generalizing m p with
  | zero => exact hrefl m
  | succ steps ih =>
      unfold makeDirectoriesFrom
      split
      · exact hrefl m
      · cases hmake : m.makeDirectory p with
        | ok made => exact hmakes (.refl p) hmake
        | error cause =>
            by_cases hmissing : cause = .notFound
            · subst hmissing
              cases hparent : p.parent? with
              | none => simpa [hparent] using hrefl m
              | some parent =>
                  have hfirst := ih m parent fun habove => hmakes (.parent hparent habove)
                  cases hmade : makeDirectoriesFrom steps m parent with
                  | mk above result =>
                      rw [hmade] at hfirst
                      cases result with
                      | error cause => simpa [hparent, hmade] using hfirst
                      | ok _ =>
                          cases hlast : above.makeDirectory p with
                          | ok made =>
                              have hmore := hmakes (.refl p) hlast
                              simpa [hparent, hmade, hlast] using htrans hfirst hmore
                          | error cause =>
                              by_cases hthere : above.isDirectory p
                              · simpa [hparent, hmade, hlast, hthere] using hfirst
                              · simpa [hparent, hmade, hlast, hthere] using hfirst
            · by_cases hthere : m.isDirectory p
              · simpa [hthere] using hrefl m
              · simpa [hthere] using hrefl m

theorem grows_makeDirectories (m : Machine) (p : Path) : m.Grows (m.makeDirectories p).1 :=
  makeDirectoriesFrom_induction .refl .trans _ m p fun _ hmake => grows_of_makeDirectory hmake

theorem makeDirectory_of_endsNamed (hp : p.EndsNamed) : m.makeDirectory p =
    match m.disk.lookup m.directory false p with
    | .ok (.found _ _) => .error .alreadyExists
    | .ok (.vacant place _) => .ok (m.put place .directory)
    | .error cause => .error cause := by
  rw [makeDirectory, hp.withoutEndSlashes]
  rcases m.disk.lookup m.directory false p with cause | ⟨place, entry⟩ | ⟨place, slashed⟩ <;> rfl

/-- Where a directory cannot be made, but not for want of the one above it, nothing is made. -/
theorem makeDirectories_of_unmade (hp : p.EndsNamed) {cause : IoError} (hmissing : cause ≠ .notFound)
    (hmake : m.makeDirectory p = .error cause) :
    m.makeDirectories p = (m, if m.isDirectory p then .ok () else .error cause) := by
  have hwritten : p.text.isEmpty = false := by simpa using hp.ne_nil
  rw [makeDirectories, makeDirectoriesFrom]
  simp only [hwritten, Bool.false_eq_true, if_false, hmake]
  split <;> rfl

/-- Where something has the name of a directory nothing is made. -/
theorem makeDirectories_of_lookup (hp : p.EndsNamed)
    (hlookup : m.disk.lookup m.directory false p = .ok (.found place entry)) :
    m.makeDirectories p = (m, if m.isDirectory p then .ok () else .error .alreadyExists) := by
  refine makeDirectories_of_unmade hp (by simp) ?_
  rw [makeDirectory_of_endsNamed hp, hlookup]

/-- Nothing is made where a directory is found. -/
theorem makeDirectories_of_found (hp : p.EndsNamed)
    (hfind : m.find p = .ok (.found place .directory)) : m.makeDirectories p = (m, .ok ()) := by
  have hthere : m.isDirectory p := by
    simp [isDirectory, entry?, hfind, Entry.isDirectory]
  obtain ⟨other, entry, hlookup⟩ := Disk.lookup_unfollowed hfind
  rw [makeDirectories_of_lookup hp hlookup, if_pos hthere]

/-- Where the name of a directory cannot be looked up, and not because nothing is there, nothing is
made. -/
theorem makeDirectories_of_error (hp : p.EndsNamed) {cause : IoError} (hmissing : cause ≠ .notFound)
    (hlookup : m.disk.lookup m.directory false p = .error cause) :
    (m.makeDirectories p).1 = m := by
  rw [makeDirectories_of_unmade hp hmissing]
  rw [makeDirectory_of_endsNamed hp, hlookup]

theorem makeDirectoriesFrom_of_vacant (hp : p.EndsNamed) {slashed : Bool}
    (hlookup : m.disk.lookup m.directory false p = .ok (.vacant place slashed)) (steps : Nat) :
    makeDirectoriesFrom (steps + 1) m p = (m.put place .directory, .ok ()) := by
  have hmake := @makeDirectory_of_endsNamed m p hp
  rw [hlookup] at hmake
  have hwritten : p.text.isEmpty = false := by simpa using hp.ne_nil
  rw [makeDirectoriesFrom]
  simp [hwritten, hmake]

/-- A directory is made at a vacant place. -/
theorem makeDirectories_of_vacant (hp : p.EndsNamed) {slashed : Bool}
    (hlookup : m.disk.lookup m.directory false p = .ok (.vacant place slashed)) :
    m.makeDirectories p = (m.put place .directory, .ok ()) :=
  makeDirectoriesFrom_of_vacant hp hlookup _

/-- A directory that is found once the one above it has been made is not made itself: the way to it
was not there before. -/
theorem makeDirectoriesFrom_of_detour {made : Machine} {parent : Path} {steps : Nat}
    (hp : p.withoutEndSlashes = p ∧ p.text.isEmpty = false)
    (hmissing : m.disk.lookup m.directory false p = .error .notFound)
    (hparent : p.parent? = some parent)
    (habove : makeDirectoriesFrom steps m parent = (made, .ok ()))
    (hthere : made.find p = .ok (.found place .directory)) :
    makeDirectoriesFrom (steps + 1) m p = (made, .ok ()) := by
  have hunmade : m.makeDirectory p = .error .notFound := by
    rw [makeDirectory, hp.1, hmissing]
    rfl
  have hstands : made.makeDirectory p = .error .alreadyExists := by
    obtain ⟨_, _, hlookup⟩ := Disk.lookup_unfollowed hthere
    rw [makeDirectory, hp.1, hlookup]
    rfl
  have hdirectory : made.isDirectory p = true := by
    rw [isDirectory, entry?, hthere]
    rfl
  rw [makeDirectoriesFrom]
  simp only [hp.2, Bool.false_eq_true, if_false, hunmade, hparent, habove, hstands, hdirectory,
    if_true]

theorem at?_put {through slashed : Bool}
    (hlookup : m.disk.lookup m.directory through p = .ok (.vacant place slashed)) (entry : Entry)
    (other : Place) : (m.put place entry).disk.at? other =
      if other = place then some entry else m.disk.at? other := by
  obtain ⟨hvacant, parent, name, rfl, hparent⟩ := Disk.lookup_stands hlookup
  have hfree : m.disk.at? (parent ++ [name]) ≠ some .directory := by simp [hvacant]
  exact Disk.at?_replace hparent hfree entry other

theorem locate_of_find {spot : Spot} (hfind : m.find p = .ok spot) :
    m.disk.locate m.directory true p = .ok spot := Disk.locate_of_lookup hfind

theorem find_of_isFile (hfile : m.isFile p) :
    ∃ place content executable, m.find p = .ok (.found place (.file content executable)) := by
  obtain ⟨⟨place, entry⟩, hentry, hkind⟩ := (Option.any_eq_true _ _).mp hfile
  cases entry with
  | file content executable => exact ⟨place, content, executable, entry?_eq_some_iff.mp hentry⟩
  | directory => cases hkind
  | link target => cases hkind

theorem isFile_of_find (hfind : m.find p = .ok (.found place (.file content executable))) :
    m.isFile p := by
  rw [isFile, entry?, hfind]
  rfl

end Machine

end ScriptAssembly
