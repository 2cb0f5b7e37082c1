import ScriptAssembly.Command.World
import ScriptAssembly.Proofs.Machine.Resolution

/-!
# Machines of one shape

Two disks are alike if they differ at most in what their files hold.  No lookup opens a file, so on
two disks that are alike every path leads to the same place or fails alike, and every walk lists the
same files.
-/

namespace ScriptAssembly

/-- The entry as a lookup sees it: a file is empty. -/
def Entry.emptied : Entry → Entry
  | .file _ executable => .file .empty executable
  | entry => entry

/-- The spot as a lookup sees it. -/
def Spot.emptied : Spot → Spot
  | .found place entry => .found place entry.emptied
  | .vacant place slashed => .vacant place slashed

/-- Lookups that end alike end in files at one place, or they end in the very same way. -/
theorem Spot.cases_of_emptied {result other : Except IoError Spot}
    (hsame : other.map emptied = result.map emptied) :
    (∃ place content held executable, result = .ok (.found place (.file content executable)) ∧
      other = .ok (.found place (.file held executable))) ∨ other = result := by
  rcases result with e | ⟨place, - | ⟨content, executable⟩ | target⟩ | ⟨place, slashed⟩
  case ok.found.file =>
    rcases other with e | ⟨place', - | ⟨held, executable'⟩ | target⟩ | ⟨place', slashed⟩
    case ok.found.file =>
      cases hsame
      exact .inl ⟨place, content, held, executable, rfl, rfl⟩
    all_goals cases hsame
  all_goals
    rcases other with e' | ⟨place', - | ⟨held, executable⟩ | target⟩ | ⟨place', slashed'⟩ <;>
      cases hsame
    exact .inr rfl

namespace Disk

/-- The same entries stand at the same places, but files may hold something else. -/
def Alike (d other : Disk) : Prop :=
  ∀ place, (other.at? place).map Entry.emptied = (d.at? place).map Entry.emptied

variable {d other : Disk} {place : Place}

theorem Alike.refl (d : Disk) : d.Alike d := fun _ => rfl

theorem Alike.symm (halike : d.Alike other) : other.Alike d := fun place => (halike place).symm

theorem Alike.trans {third : Disk} (halike : d.Alike other) (hnext : other.Alike third) :
    d.Alike third := fun place => (hnext place).trans (halike place)

theorem Alike.vacant (halike : d.Alike other) (hplace : d.at? place = none) :
    other.at? place = none := by
  have hsame := halike place
  rw [hplace] at hsame
  simpa using hsame

theorem Alike.entry {entry : Entry} (halike : d.Alike other) (hplace : d.at? place = some entry) :
    ∃ kept, other.at? place = some kept ∧ kept.emptied = entry.emptied := by
  have hsame := halike place
  rw [hplace] at hsame
  exact Option.map_eq_some_iff.mp hsame

theorem Alike.directory (halike : d.Alike other) (hplace : d.at? place = some .directory) :
    other.at? place = some .directory := by
  obtain ⟨kept, hkept, hempty⟩ := halike.entry hplace
  cases kept <;> cases hempty
  exact hkept

theorem Alike.link {target : Path} (halike : d.Alike other)
    (hplace : d.at? place = some (.link target)) : other.at? place = some (.link target) := by
  obtain ⟨kept, hkept, hempty⟩ := halike.entry hplace
  cases kept <;> cases hempty
  exact hkept

theorem Alike.file {content : ByteArray} {executable : Bool} (halike : d.Alike other)
    (hplace : d.at? place = some (.file content executable)) :
    ∃ content, other.at? place = some (.file content executable) := by
  obtain ⟨kept, hkept, hempty⟩ := halike.entry hplace
  cases kept <;> cases hempty
  exact ⟨_, hkept⟩

/-- Disks that are alike have the same directories and links. -/
theorem Alike.ways (halike : d.Alike other) : d.KeepsWays other := by
  intro place entry hentry hway
  cases entry with
  | directory => exact halike.directory hentry
  | link target => exact halike.link hentry
  | file => cases hway

theorem Alike.isDirectoryAt (halike : d.Alike other) (place : Place) :
    other.isDirectoryAt place = d.isDirectoryAt place := by
  rw [Bool.eq_iff_iff, isDirectoryAt_iff, isDirectoryAt_iff]
  exact ⟨halike.symm.directory, halike.directory⟩

/-- On disks that are alike a path leads to the same spot, or fails for the same reason. -/
theorem Alike.follow (halike : d.Alike other) (through : Bool) (links : Nat) (here : Place)
    (pieces : List (List Char)) :
    (other.follow through links here pieces).map Spot.emptied =
      (d.follow through links here pieces).map Spot.emptied := by
  induction links, here, pieces using follow.induct d through with
  | case1 links here => rw [Disk.follow, Disk.follow]
  | case2 links here piece rest hsilent ih =>
      rw [Disk.follow, if_pos hsilent, Disk.follow, if_pos hsilent, ih]
  | case3 links here rest hspoken ih =>
      rw [Disk.follow, if_neg hspoken, if_pos rfl, Disk.follow, if_neg hspoken, if_pos rfl, ih]
  | case4 links here piece rest hspoken hnotAbove hlong =>
      rw [Disk.follow, if_neg hspoken, if_neg hnotAbove, if_pos hlong, Disk.follow, if_neg hspoken,
        if_neg hnotAbove, if_pos hlong]
  | case5 links here piece rest hspoken hnotAbove hshort place hentry hrest =>
      have hname : NamesEntry piece := ⟨hspoken, hnotAbove, hshort⟩
      simp only [follow_of_namesEntry hname, place, hentry, halike.vacant hentry]
  | case6 links here piece rest hspoken hnotAbove hshort place hentry hrest =>
      have hname : NamesEntry piece := ⟨hspoken, hnotAbove, hshort⟩
      simp only [follow_of_namesEntry hname, place, hentry, halike.vacant hentry]
  | case7 links here piece rest hspoken hnotAbove hshort place hentry ih =>
      have hname : NamesEntry piece := ⟨hspoken, hnotAbove, hshort⟩
      simp only [follow_of_namesEntry hname, place, hentry, halike.directory hentry]
      exact ih
  | case8 links here piece rest hspoken hnotAbove hshort place content executable hentry hrest =>
      have hname : NamesEntry piece := ⟨hspoken, hnotAbove, hshort⟩
      obtain ⟨held, hheld⟩ := halike.file hentry
      simp only [follow_of_namesEntry hname, place, hentry, hheld, hrest, if_true]
      rfl
  | case9 links here piece rest hspoken hnotAbove hshort place content executable hentry hrest =>
      have hname : NamesEntry piece := ⟨hspoken, hnotAbove, hshort⟩
      obtain ⟨held, hheld⟩ := halike.file hentry
      simp only [follow_of_namesEntry hname, place, hentry, hheld, hrest]
      rfl
  | case10 links here piece rest hspoken hnotAbove hshort place target hentry hlast =>
      have hname : NamesEntry piece := ⟨hspoken, hnotAbove, hshort⟩
      simp only [follow_of_namesEntry hname, place, hentry, halike.link hentry, hlast, if_true]
  | case11 here piece rest hspoken hnotAbove hshort place target hentry hlast =>
      have hname : NamesEntry piece := ⟨hspoken, hnotAbove, hshort⟩
      simp only [follow_of_namesEntry hname, place, hentry, halike.link hentry, hlast]
  | case12 here piece rest hspoken hnotAbove hshort place target hentry hlast links ih =>
      have hname : NamesEntry piece := ⟨hspoken, hnotAbove, hshort⟩
      simp only [follow_of_namesEntry hname, place, hentry, halike.link hentry, hlast]
      exact ih

theorem Alike.locate (halike : d.Alike other) (here : Place) (through : Bool) (p : Path) :
    (other.locate here through p).map Spot.emptied =
      (d.locate here through p).map Spot.emptied := by
  unfold Disk.locate
  rw [halike.isDirectoryAt here]
  split
  · rfl
  · split
    · rfl
    · split
      · exact halike.follow through linkLimit [] _
      · split
        · exact halike.follow through linkLimit here _
        · rfl

theorem Alike.lookup (halike : d.Alike other) (here : Place) (through : Bool) (p : Path) :
    (other.lookup here through p).map Spot.emptied =
      (d.lookup here through p).map Spot.emptied := by
  unfold Disk.lookup
  split
  · rfl
  · exact halike.locate here through p

/-! ## Walks -/

theorem nodup_eraseDups {names : List String} : names.eraseDups.Nodup := by
  induction hlength : names.length using Nat.strongRecOn generalizing names with
  | ind length ih =>
      cases names with
      | nil => simp
      | cons name names =>
          rw [List.eraseDups_cons, List.nodup_cons]
          refine ⟨by simp [List.mem_eraseDups], ih _ ?_ rfl⟩
          have hshorter := List.length_filter_le (fun other => !other == name) names
          simp only [List.length_cons] at hlength
          omega

theorem mem_names {directory : Place} {name : String} :
    name ∈ d.names directory ↔ ∃ entry, (directory ++ [name], entry) ∈ d.entries := by
  simp only [names, List.mem_mergeSort, List.mem_eraseDups, List.mem_filterMap]
  constructor
  · rintro ⟨⟨place, entry⟩, hmem, hlast⟩
    split at hlast
    · rename_i hplace
      obtain ⟨front, hfront⟩ := List.getLast?_eq_some_iff.mp hlast
      have hdirectory : front = directory := by
        rw [← hplace.2, hfront, List.dropLast_concat]
      exact ⟨entry, hdirectory ▸ hfront ▸ hmem⟩
    · cases hlast
  · rintro ⟨entry, hmem⟩
    exact ⟨_, hmem, by simp⟩

theorem pairwise_names (directory : Place) : (d.names directory).Pairwise (· ≤ ·) := by
  have htrans : ∀ x y z : String, decide (x ≤ y) → decide (y ≤ z) → decide (x ≤ z) := by
    intro x y z hxy hyz
    exact decide_eq_true (String.le_trans (of_decide_eq_true hxy) (of_decide_eq_true hyz))
  have htotal : ∀ x y : String, decide (x ≤ y) || decide (y ≤ x) := by
    intro x y
    simpa using String.le_total x y
  exact (List.pairwise_mergeSort htrans htotal _).imp of_decide_eq_true

theorem nodup_names (directory : Place) : (d.names directory).Nodup :=
  (List.mergeSort_perm _ _).nodup_iff.mpr nodup_eraseDups

/-- The names in a directory under which something can be reached. -/
def reached (d : Disk) (directory : Place) : List String :=
  (d.names directory).filter fun name => (d.at? (directory ++ [name])).isSome

theorem mem_reached {directory : Place} {name : String} :
    name ∈ d.reached directory ↔ (d.at? (directory ++ [name])).isSome := by
  simp only [reached, List.mem_filter, and_iff_right_iff_imp]
  intro hreached
  obtain ⟨entry, hentry⟩ := Option.isSome_iff_exists.mp hreached
  exact mem_names.mpr ⟨entry, mem_of_noted? (by simp) (noted?_eq_some_of_at? hentry)⟩

theorem Alike.reached (halike : d.Alike other) (directory : Place) :
    other.reached directory = d.reached directory := by
  have hmem : ∀ name, name ∈ other.reached directory ↔ name ∈ d.reached directory := by
    intro name
    have hsame := congrArg Option.isSome (halike (directory ++ [name]))
    simp only [Option.isSome_map] at hsame
    rw [mem_reached, mem_reached, hsame]
  have hperm : (other.reached directory).Perm (d.reached directory) :=
    (List.perm_ext_iff_of_nodup ((nodup_names directory).filter _)
      ((nodup_names directory).filter _)).mpr hmem
  refine List.Perm.eq_of_pairwise ?_ ((pairwise_names directory).filter _)
    ((pairwise_names directory).filter _) hperm
  intro x y _ _ hxy hyx
  exact String.le_antisymm hxy hyx

theorem walkEntry_eq_file {followLinks : Bool} {inside : List Place} {shown : Path}
    {here : Place} {name : String}
    (hentry : d.walkEntry followLinks inside shown here name = .file) :
    (∃ content executable, d.at? (here ++ [name]) = some (.file content executable)) ∨
      followLinks ∧ (∃ target, d.at? (here ++ [name]) = some (.link target)) ∧
        ∃ place content executable, d.lookup here true (shown.join ⟨name⟩) =
          .ok (.found place (.file content executable)) := by
  unfold walkEntry at hentry
  split at hentry
  · cases hentry
  · rename_i content executable hchild
    exact .inl ⟨content, executable, hchild⟩
  · cases hentry
  · rename_i target hchild
    split at hentry
    · rename_i hfollow
      split at hentry
      · rename_i place content executable hlookup
        exact .inr ⟨hfollow, ⟨target, hchild⟩, place, content, executable, hlookup⟩
      · split at hentry
        · cases hentry
        · split at hentry <;> cases hentry
      · cases hentry
    · cases hentry

/-- A walk makes something of a name only if an entry has the name. -/
theorem exists_at?_of_walkEntry {followLinks : Bool} {inside : List Place} {shown : Path}
    {here : Place} {name : String}
    (hentry : d.walkEntry followLinks inside shown here name ≠ .skipped) :
    ∃ entry, d.at? (here ++ [name]) = some entry := by
  refine Option.ne_none_iff_exists'.mp fun hvacant => hentry ?_
  rw [walkEntry, hvacant]

theorem Alike.walkEntry (halike : d.Alike other) (followLinks : Bool) (inside : List Place)
    (shown : Path) (here : Place) (name : String) :
    other.walkEntry followLinks inside shown here name =
      d.walkEntry followLinks inside shown here name := by
  unfold Disk.walkEntry
  cases hentry : d.at? (here ++ [name]) with
  | none => simp only [halike.vacant hentry]
  | some entry =>
      cases entry with
      | directory => simp only [halike.directory hentry]
      | file content executable =>
          obtain ⟨held, hheld⟩ := halike.file hentry
          simp only [hheld]
      | link target =>
          simp only [halike.link hentry]
          have hlookup := halike.lookup here true (shown.join ⟨name⟩)
          rcases Spot.cases_of_emptied hlookup with
            ⟨place, content, held, executable, hknown, hled⟩ | hled
          · simp only [hknown, hled]
          · rw [hled]
            simp only [halike.isDirectoryAt]

section walk

variable {followLinks : Bool} {root : Path} {inside : List Place} {names here file : Place}
  {name : String}

/-- What a walk lists under one name of a directory. -/
def filesUnder (d : Disk) (followLinks : Bool) (root : Path) (inside : List Place)
    (names here : Place) (name : String) : List Place :=
  match d.walkEntry followLinks inside (root.under names) here name with
  | .skipped => []
  | .file => [names ++ [name]]
  | .directory place => d.filesBelow followLinks root (place :: inside) (names ++ [name]) place

theorem filesBelow_eq (followLinks : Bool) (root : Path) (inside : List Place)
    (names here : Place) : d.filesBelow followLinks root inside names here =
      (d.listing (root.under names) here).flatMap
        (d.filesUnder followLinks root inside names here) := by
  rw [filesBelow]
  refine congrArg (fun under => (d.listing (root.under names) here).flatMap under)
    (funext fun name => ?_)
  unfold filesUnder
  split <;> simp_all

theorem mem_filesUnder_iff : file ∈ d.filesUnder followLinks root inside names here name ↔
    d.walkEntry followLinks inside (root.under names) here name = .file ∧ file = names ++ [name] ∨
      ∃ place, d.walkEntry followLinks inside (root.under names) here name = .directory place ∧
        file ∈ d.filesBelow followLinks root (place :: inside) (names ++ [name]) place := by
  unfold filesUnder
  cases d.walkEntry followLinks inside (root.under names) here name <;> simp

/-- What a walk lists is a file in the directory, or it is listed below a directory in it. -/
theorem mem_filesBelow_cases (hfile : file ∈ d.filesBelow followLinks root inside names here) :
    ∃ name,
      d.walkEntry followLinks inside (root.under names) here name = .file ∧
          file = names ++ [name] ∨
        ∃ place, d.walkEntry followLinks inside (root.under names) here name = .directory place ∧
          file ∈ d.filesBelow followLinks root (place :: inside) (names ++ [name]) place := by
  rw [filesBelow_eq] at hfile
  obtain ⟨name, -, hunder⟩ := List.mem_flatMap.mp hfile
  exact ⟨name, mem_filesUnder_iff.mp hunder⟩

/-- The names that a walk finds something under in a directory that it opens. -/
def shownNames (d : Disk) (shown : Path) (here : Place) : List String :=
  if pathLimit < shown.text.utf8ByteSize then [] else d.reached here

theorem filesUnder_of_vacant (hvacant : d.at? (here ++ [name]) = none) :
    d.filesUnder followLinks root inside names here name = [] := by
  rw [filesUnder, walkEntry, hvacant]

theorem filesBelow_eq_shown (followLinks : Bool) (root : Path) (inside : List Place)
    (names here : Place) : d.filesBelow followLinks root inside names here =
      (d.shownNames (root.under names) here).flatMap
        (d.filesUnder followLinks root inside names here) := by
  rw [filesBelow_eq, shownNames, listing]
  split
  · rfl
  · rw [reached]
    induction d.names here with
    | nil => rfl
    | cons name others ih =>
        rw [List.flatMap_cons, ih, List.filter_cons]
        cases hentry : d.at? (here ++ [name]) with
        | none => simp [filesUnder_of_vacant hentry]
        | some entry => simp

/-- On disks that are alike a walk lists the same files. -/
theorem Alike.filesBelow (halike : d.Alike other) (followLinks : Bool) (root : Path)
    (inside : List Place) (names here : Place) :
    other.filesBelow followLinks root inside names here =
      d.filesBelow followLinks root inside names here := by
  induction inside, names, here using filesBelow.induct d followLinks root with
  | case1 inside names here ih =>
      rw [filesBelow_eq_shown, filesBelow_eq_shown, shownNames, halike.reached, ← shownNames]
      refine congrArg (fun under => (d.shownNames (root.under names) here).flatMap under)
        (funext fun name => ?_)
      rw [filesUnder, filesUnder, halike.walkEntry]
      cases hentry : d.walkEntry followLinks inside (root.under names) here name with
      | skipped => rfl
      | file => rfl
      | directory place => exact ih name place hentry

end walk

end Disk

namespace Machine

variable {m other : Machine} {p : Path}

/-- The setting is the same, and the disks are alike. -/
structure Alike (m other : Machine) : Prop where
  /-- The setting is the same. -/
  setting : m.SameSetting other
  /-- The disks differ at most in what their files hold. -/
  disk : m.disk.Alike other.disk

theorem Alike.refl (m : Machine) : m.Alike m := ⟨.refl m, .refl m.disk⟩

theorem Alike.trans {third : Machine} (halike : m.Alike other) (hnext : other.Alike third) :
    m.Alike third := ⟨halike.setting.trans hnext.setting, halike.disk.trans hnext.disk⟩

theorem Alike.lookup (halike : m.Alike other) (through : Bool) (p : Path) :
    (other.disk.lookup other.directory through p).map Spot.emptied =
      (m.disk.lookup m.directory through p).map Spot.emptied := by
  rw [halike.setting.directory]
  exact halike.disk.lookup m.directory through p

theorem Alike.find_cases (halike : m.Alike other) (p : Path) :
    (∃ place content held executable, m.find p = .ok (.found place (.file content executable)) ∧
      other.find p = .ok (.found place (.file held executable))) ∨ other.find p = m.find p :=
  Spot.cases_of_emptied (halike.lookup true p)

theorem Alike.isFile (halike : m.Alike other) (p : Path) : other.isFile p = m.isFile p := by
  unfold Machine.isFile entry?
  rcases halike.find_cases p with ⟨place, content, held, executable, hfind, hother⟩ | hsame
  · rw [hfind, hother]
    rfl
  · rw [hsame]

theorem Alike.isDirectory (halike : m.Alike other) (p : Path) :
    other.isDirectory p = m.isDirectory p := by
  unfold Machine.isDirectory entry?
  rcases halike.find_cases p with ⟨place, content, held, executable, hfind, hother⟩ | hsame
  · rw [hfind, hother]
    rfl
  · rw [hsame]

theorem Alike.staysShort (halike : m.Alike other) (p : Path) :
    other.staysShort p = m.staysShort p :=
  staysShort_congr halike.setting.directory halike.disk.ways halike.disk.symm.ways p

theorem Alike.canonical (halike : m.Alike other) (p : Path) :
    other.canonical p = m.canonical p := by
  have hlocate := halike.disk.locate m.directory true p
  unfold Machine.canonical
  rw [halike.staysShort, halike.setting.directory]
  rcases Spot.cases_of_emptied hlocate with
    ⟨place, content, held, executable, hspot, hother⟩ | hsame
  · rw [hspot, hother]
    rfl
  · rw [hsame]

theorem Alike.workingDirectory (halike : m.Alike other) :
    other.workingDirectory = m.workingDirectory := by
  rw [Machine.workingDirectory, Machine.workingDirectory, halike.setting.directory,
    halike.disk.isDirectoryAt]

theorem Alike.identity (halike : m.Alike other) (p : Path) : other.identity p = m.identity p := by
  rw [Machine.identity, Machine.identity, halike.canonical, halike.workingDirectory]

theorem Alike.namedRoot (halike : m.Alike other) (name : String) :
    other.namedRoot name = m.namedRoot name := by
  simp only [Machine.namedRoot, halike.canonical, halike.workingDirectory]

theorem Alike.collect (halike : m.Alike other) (c : Collector) (folder : Path) :
    c.collect other folder = c.collect m folder := by
  unfold Collector.collect entry?
  dsimp only
  rw [halike.identity]
  rcases halike.find_cases (m.identity folder) with
    ⟨place, content, held, executable, hfind, hother⟩ | hsame
  · rw [hfind, hother]
  · rw [hsame]
    rcases m.find (m.identity folder) with
      e | ⟨place, - | ⟨content, executable⟩ | target⟩ | ⟨place, slashed⟩
    case ok.found.directory =>
      dsimp only
      rw [halike.disk.filesBelow]
    all_goals rfl

/-- A path that leads to a file goes on leading to a file there. -/
theorem Alike.find_file {place : Place} {content : ByteArray} {executable : Bool}
    (halike : m.Alike other) (hfind : m.find p = .ok (.found place (.file content executable))) :
    ∃ held, other.find p = .ok (.found place (.file held executable)) := by
  rcases halike.find_cases p with ⟨place', content', held, executable', hfound, hother⟩ | hsame
  · rw [hfind] at hfound
    cases hfound
    exact ⟨held, hother⟩
  · exact ⟨content, hsame.trans hfind⟩

/-- A path that leads to no file goes on leading where it led. -/
theorem Alike.find_other {spot : Spot} (halike : m.Alike other) (hfind : m.find p = .ok spot)
    (hspot : ∀ place content executable, spot ≠ .found place (.file content executable)) :
    other.find p = .ok spot := by
  rcases halike.find_cases p with ⟨place, content, held, executable, hfound, hother⟩ | hsame
  · rw [hfind] at hfound
    cases hfound
    exact absurd rfl (hspot place content executable)
  · exact hsame.trans hfind

/-- A file can be written on both machines or on neither. -/
theorem Alike.writeFile (halike : m.Alike other) (p : Path) (one two : ByteArray) :
    (∃ e, m.writeFile p one = .error e ∧ other.writeFile p two = .error e) ∨
    ∃ first second, m.writeFile p one = .ok first ∧ other.writeFile p two = .ok second := by
  rcases halike.find_cases p with ⟨place, content, held, executable, hfind, hother⟩ | hsame
  · refine .inr ⟨m.put place (.file one executable), other.put place (.file two executable), ?_, ?_⟩
    · rw [Machine.writeFile, hfind]
      rfl
    · rw [Machine.writeFile, hother]
      rfl
  · unfold Machine.writeFile
    rw [hsame]
    rcases m.find p with e | ⟨place, - | ⟨old, executable⟩ | target⟩ | ⟨place, - | -⟩
    · exact .inl ⟨e, rfl, rfl⟩
    · exact .inl ⟨_, rfl, rfl⟩
    · exact .inr ⟨_, _, rfl, rfl⟩
    · exact .inl ⟨_, rfl, rfl⟩
    · exact .inr ⟨_, _, rfl, rfl⟩
    · exact .inl ⟨_, rfl, rfl⟩

/-- Writing a file anew leaves the shape as it is. -/
theorem Writes.alike {written place : Place} {content old : ByteArray} {executable mode : Bool}
    (hwrites : m.Writes p content place executable other)
    (hfind : m.find p = .ok (.found written (.file old mode))) : m.Alike other := by
  obtain ⟨rfl, rfl⟩ := hwrites.eq_of_find hfind
  refine ⟨hwrites.setting, fun q => ?_⟩
  rw [hwrites.disk]
  by_cases hsame : q = place
  · have hstands : m.disk.at? place = some (.file old executable) := Disk.lookup_stands hfind
    rw [if_pos hsame, hsame, hstands]
    rfl
  · rw [if_neg hsame]

end Machine

end ScriptAssembly
