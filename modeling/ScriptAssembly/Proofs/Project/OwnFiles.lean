import ScriptAssembly.Proofs.Machine.Spelling
import ScriptAssembly.Proofs.Project.Store

/-!
# The own files of a project

A name joined to the path of a root is looked up in the directory that the root leads to.  So where
none of the names that a project uses for itself is that of a link, its configuration and its stamp
are written into the one directory of its own files, and making that directory makes nothing else.
Where the root leads nowhere as yet, directories are made on the way to it.
-/

namespace ScriptAssembly

/-- A name joined to a path is its last piece, and in front of it the path says what it said. -/
theorem Path.exists_split_join (base : Path) {name : String} (hname : IsName name) :
    ∃ front, Text.split '/' (base.join ⟨name⟩).text.toList = front ++ [name.toList] ∧
      spoken front = spoken (Text.split '/' base.text.toList) := by
  have hlast : Text.split '/' name.toList = [name.toList] := Text.split_of_not_mem hname.slashless
  rw [join_of_relative base hname.isAbsolute, Path.front]
  split
  · rename_i hends
    rw [String.toList_append]
    rcases hends with hempty | hslash
    · refine ⟨[], ?_, by rw [hempty]; rfl⟩
      rw [hempty]
      exact hlast
    · obtain ⟨before, htext⟩ := List.getLast?_eq_some_iff.mp hslash
      refine ⟨Text.split '/' before, ?_, ?_⟩
      · rw [htext, List.append_assoc, List.singleton_append, Text.split_append_cons, hlast]
      · have hsilent : Text.split '/' ([] : List Char) = [[]] := rfl
        rw [htext, Text.split_append_cons, hsilent, spoken, spoken, List.filter_append]
        exact (List.append_nil _).symm
  · refine ⟨Text.split '/' base.text.toList, ?_, rfl⟩
    rw [String.toList_append, String.toList_append, List.append_assoc]
    exact (Text.split_append_cons '/' _ _).trans (congrArg _ hlast)

/-- The place of a spot. -/
def Spot.place : Spot → Place
  | .found place _ => place
  | .vacant place _ => place

namespace Disk

variable {d after : Disk} {here home place : Place} {through : Bool} {base : Path} {name : String}
  {spot : Spot}

theorem locate_eq_ok_iff_of_isAbsolute {p : Path} (hp : p.isAbsolute) :
    d.locate here through p = .ok spot ↔
      '\x00' ∉ p.text.toList ∧
      d.Leads through linkLimit [] (Text.split '/' p.text.toList) spot := by
  have hwritten : p.text.isEmpty = false := by
    obtain ⟨rest, htext⟩ := Path.isAbsolute_iff.mp hp
    rw [Bool.eq_false_iff, ne_eq, String.isEmpty_iff]
    intro hempty
    rw [hempty] at htext
    cases htext
  rw [locate_eq_ok_iff, origin, if_pos hp]
  simp [hwritten]

/-- A name joined to a path is looked up in the directory that the path leads to. -/
theorem lookup_joined (hbase : base.isAbsolute) (hname : Path.IsName name)
    (hlookup : d.lookup here through (base.join ⟨name⟩) = .ok spot) :
    ∃ home, d.locate here true base = .ok (.found home .directory) ∧
      ∀ next, (∀ links, d.Leads through links home [name.toList] next) → spot = next := by
  obtain ⟨hadmits, hleads⟩ := lookup_eq_ok_iff.mp hlookup
  obtain ⟨front, hsplit, hspoken⟩ := base.exists_split_join hname
  rw [origin, if_pos (Path.isAbsolute_join_of_isAbsolute hbase _), hsplit] at hleads
  obtain ⟨home, hfront⟩ := hleads.front (by simp [hname.ne_nil])
  refine ⟨home, ?_, fun next hnext => hleads.unique (hfront.behind (by simp) hnext)⟩
  refine (locate_eq_ok_iff_of_isAbsolute hbase).mpr ⟨fun hnull => hadmits.clean ?_,
    hfront.respelled hspoken.symm⟩
  rw [Path.join_of_relative base hname.isAbsolute, Path.front]
  split <;> simp [hnull]

/-- In a directory that a path leads to no name is missing because of the path. -/
theorem lookup_joined_ne_notFound (hbase : base.isAbsolute) (hname : Path.IsName name)
    (hentry : NamesEntry name.toList) (hclean : '\x00' ∉ name.toList)
    (hhome : d.locate here true base = .ok (.found home .directory)) :
    d.lookup here false (base.join ⟨name⟩) ≠ .error .notFound := by
  obtain ⟨hbaseClean, hleads⟩ := (locate_eq_ok_iff_of_isAbsolute hbase).mp hhome
  obtain ⟨front, hsplit, hspoken⟩ := base.exists_split_join hname
  obtain ⟨next, hnext⟩ := @exists_leads_name d _ hentry home
  have hwhole := (hleads.respelled hspoken).behind (by simp) hnext
  have habsolute := Path.isAbsolute_join_of_isAbsolute hbase ⟨name⟩
  have hlocate : d.locate here false (base.join ⟨name⟩) = .ok next := by
    refine (locate_eq_ok_iff_of_isAbsolute habsolute).mpr ⟨fun hnull => ?_, hsplit ▸ hwhole⟩
    rw [Path.join_of_relative base hname.isAbsolute, Path.front] at hnull
    split at hnull <;> simp [hbaseClean, hclean] at hnull
  unfold lookup
  split
  · rintro ⟨⟩
  · rw [hlocate]
    rintro ⟨⟩

/-- A name that is not that of a link leads to its place. -/
theorem exists_leads_unlinked {directory : Place} (hname : NamesEntry name.toList)
    (hlink : ∀ target, d.at? (directory ++ [name]) ≠ some (.link target)) :
    ∃ spot, (∀ links, d.Leads through links directory [name.toList] spot) ∧
      spot.place = directory ++ [name] := by
  have hself : String.ofList name.toList = name := String.ofList_toList
  rcases hentry : d.at? (directory ++ [name]) with - | - | ⟨content, executable⟩ | target
  · exact ⟨_, fun _ => .vacant hname (hself.symm ▸ hentry) rfl, by rw [hself]; rfl⟩
  · exact ⟨_, fun _ => .directory hname (hself.symm ▸ hentry) .arrived, by rw [hself]; rfl⟩
  · exact ⟨_, fun _ => .file hname (hself.symm ▸ hentry), by rw [hself]; rfl⟩
  · exact absurd hentry (hlink target)

/-- None of the names that a project uses for its own directory and for the files in it is that of a
link. -/
def Unlinked (d : Disk) : Prop :=
  ∀ name ∈ [".dll-forge", "project.json", "last_build.json"], ∀ directory target,
    d.at? (directory ++ [name]) ≠ some (.link target)

theorem Unlinked.of_links (hunlinked : d.Unlinked)
    (hlinks : ∀ place target, after.at? place = some (.link target) →
      d.at? place = some (.link target)) : after.Unlinked :=
  fun name hname directory target hlink =>
    hunlinked name hname directory target (hlinks _ target hlink)

/-- Beside the own files of the project in `home` nothing has changed.  Their directory may have
been made if `made` holds, and files of the names may have been written. -/
def OwnChanges (home : Place) (made : Bool) (names : List String) (before after : Disk) : Prop :=
  ∀ place, after.at? place = before.at? place ∨
    (made = true ∧ place = home ++ [".dll-forge"] ∧
      before.at? place = none ∧ after.at? place = some .directory) ∨
    ∃ name ∈ names, place = home ++ [".dll-forge", name] ∧
      ∃ content executable, after.at? place = some (.file content executable)

namespace OwnChanges

variable {made : Bool} {names : List String} {before between : Disk}

theorem refl (home : Place) (made : Bool) (names : List String) (d : Disk) :
    d.OwnChanges home made names d := fun _ => .inl rfl

theorem mono {others : List String} (hchanges : before.OwnChanges home made names after)
    (hnames : names ⊆ others) : before.OwnChanges home made others after := by
  intro place
  rcases hchanges place with hsame | hmade | ⟨name, hname, hrest⟩
  · exact .inl hsame
  · exact .inr (.inl hmade)
  · exact .inr (.inr ⟨name, hnames hname, hrest⟩)

/-- Where the directory was there it has not been made. -/
theorem unmade (hchanges : before.OwnChanges home made names after) (other : Bool)
    (hthere : before.at? (home ++ [".dll-forge"]) ≠ none) :
    before.OwnChanges home other names after := by
  intro place
  rcases hchanges place with hsame | ⟨-, rfl, hvacant, -⟩ | hwritten
  · exact .inl hsame
  · exact absurd hvacant hthere
  · exact .inr (.inr hwritten)

theorem trans (hfirst : before.OwnChanges home made names between)
    (hsecond : between.OwnChanges home made names after) :
    before.OwnChanges home made names after := by
  intro place
  rcases hsecond place with hsame | ⟨hmakes, hplace, hvacant, hdirectory⟩ | hwritten
  · rw [hsame]
    exact hfirst place
  · rcases hfirst place with hsame | ⟨-, -, -, hmade⟩ | ⟨name, -, -, content, executable, hfile⟩
    · exact .inr (.inl ⟨hmakes, hplace, hsame.symm.trans hvacant, hdirectory⟩)
    · cases hvacant.symm.trans hmade
    · cases hvacant.symm.trans hfile
  · exact .inr (.inr hwritten)

/-- What is no own file is the same if it is a file before or after. -/
theorem file_elsewhere (hchanges : before.OwnChanges home made names after) {place : Place}
    (hplace : ∀ name, place ≠ home ++ [".dll-forge", name]) {content : ByteArray}
    {executable : Bool} : before.at? place = some (.file content executable) ↔
      after.at? place = some (.file content executable) := by
  rcases hchanges place with hsame | ⟨-, -, hvacant, hdirectory⟩ | ⟨name, -, hown, -⟩
  · rw [hsame]
  · rw [hvacant, hdirectory]
    simp
  · exact absurd hown (hplace name)

end OwnChanges

end Disk

namespace Machine

variable {m after : Machine} {p : Path} {home place : Place} {content : ByteArray}
  {executable : Bool}

/-- The path leads to the directory. -/
def Opens (m : Machine) (p : Path) (home : Place) : Prop :=
  m.disk.locate m.directory true p = .ok (.found home .directory)

theorem Opens.unique {other : Place} (hopens : m.Opens p home) (hother : m.Opens p other) :
    home = other := by
  cases hopens.symm.trans hother
  rfl

theorem Opens.of_keeps (hp : p.isAbsolute) (hopens : m.Opens p home)
    (hkeeps : m.disk.Keeps after.disk) : after.Opens p home := by
  obtain ⟨hclean, hleads⟩ := (Disk.locate_eq_ok_iff_of_isAbsolute hp).mp hopens
  have hthere : m.disk.at? home = some .directory := hleads.stands Disk.at?_root
  exact (Disk.locate_eq_ok_iff_of_isAbsolute hp).mpr
    ⟨hclean, hleads.found_of_keeps hkeeps Disk.at?_root (hkeeps.directory hthere)⟩

/-- The parent of a path that leads somewhere leads to a directory. -/
theorem exists_opens_parent {parent : Path} {spot : Spot} (hp : p.isAbsolute)
    (hparent : p.parent? = some parent) (hfind : m.find p = .ok spot) :
    parent.isAbsolute ∧ ∃ home, m.Opens parent home := by
  have hname : Path.IsName ".dll-forge" := ⟨by decide, by decide⟩
  obtain ⟨hadmits, hleads⟩ := Disk.lookup_eq_ok_iff.mp hfind
  obtain ⟨habsolute, front, others, hpieces, hothers, hjoined⟩ :=
    Path.pieces_parent_join hp hparent hname
  have hroot : parent.isAbsolute := Path.isAbsolute_of_parent? hp hparent
  obtain ⟨before, hsplit, hspoken⟩ := parent.exists_split_join hname
  -- In front of the name the joined path says what the parent says, and the path begins with it.
  obtain rfl : before = [] :: front := by
    rw [Path.split_of_isAbsolute habsolute, hjoined, ← List.cons_append] at hsplit
    exact (List.append_inj_left' hsplit rfl).symm
  rw [Disk.origin, if_pos hp, Path.split_of_isAbsolute hp, hpieces, ← List.cons_append] at hleads
  obtain ⟨home, hfront⟩ := hleads.front hothers
  refine ⟨hroot, home, (Disk.locate_eq_ok_iff_of_isAbsolute hroot).mpr
    ⟨fun hnull => hadmits.clean ?_, hfront.respelled hspoken.symm⟩⟩
  obtain ⟨piece, hpiece, hin⟩ := Path.exists_spoken_of_mem (by decide) (by decide) hnull
  rw [← hspoken] at hpiece
  refine Path.mem_of_mem_spoken (List.mem_filter.mpr ⟨?_, (List.mem_filter.mp hpiece).2⟩) hin
  rw [Path.split_of_isAbsolute hp, hpieces]
  exact List.mem_append_left others (List.mem_filter.mp hpiece).1

theorem Grows.unlinked (hgrows : m.Grows after) (hunlinked : m.disk.Unlinked) :
    after.disk.Unlinked := by
  refine hunlinked.of_links fun place target hlink => ?_
  rcases hgrows.disk place with hsame | ⟨-, hdirectory⟩
  · exact hsame.symm.trans hlink
  · cases hlink.symm.trans hdirectory

theorem Writes.unlinked (hwrites : m.Writes p content place executable after)
    (hunlinked : m.disk.Unlinked) : after.disk.Unlinked := by
  refine hunlinked.of_links fun other target hlink => ?_
  rw [hwrites.disk] at hlink
  split at hlink
  · cases hlink
  · exact hlink

/-- Writing a file leads the path to its place. -/
theorem Writes.exists_spot (hwrites : m.Writes p content place executable after) :
    ∃ spot, m.find p = .ok spot ∧ spot.place = place := by
  rcases hwrites.spot with ⟨old, hfind⟩ | ⟨hfind, -⟩
  · exact ⟨_, hfind, rfl⟩
  · exact ⟨_, hfind, rfl⟩

/-- Nothing has changed but that directories have been made where a path above this one leads. -/
structure MakesAbove (m : Machine) (p : Path) (after : Machine) : Prop where
  /-- Directories have been made. -/
  grows : m.Grows after
  /-- A path above this one leads to each. -/
  above : ∀ place, after.disk.at? place = m.disk.at? place ∨
    ∃ above : Path, above.IsAbove p ∧
      after.disk.lookup after.directory false above.withoutEndSlashes =
        .ok (.found place .directory)

namespace MakesAbove

theorem refl (m : Machine) (p : Path) : m.MakesAbove p m := ⟨.refl m, fun _ => .inl rfl⟩

theorem trans {between : Machine} (hfirst : m.MakesAbove p between)
    (hsecond : between.MakesAbove p after) : m.MakesAbove p after := by
  refine ⟨hfirst.grows.trans hsecond.grows, fun place => ?_⟩
  rcases hsecond.above place with hsame | hmade
  · rcases hfirst.above place with hfree | ⟨above, habove, hlookup⟩
    · exact .inl (hsame.trans hfree)
    · have hthere : between.disk.at? place = some .directory := Disk.lookup_stands hlookup
      refine .inr ⟨above, habove, ?_⟩
      rw [hsecond.grows.setting.directory]
      exact Disk.lookup_found_of_keeps hlookup hsecond.grows.disk.keeps (hsame.trans hthere)
  · exact .inr hmade

theorem of_makeDirectory {above : Path} (habove : above.IsAbove p)
    (hmake : m.makeDirectory above = .ok after) : m.MakesAbove p after := by
  have hgrows := grows_of_makeDirectory hmake
  refine ⟨hgrows, fun place => ?_⟩
  unfold makeDirectory at hmake
  cases hlookup : m.disk.lookup m.directory false above.withoutEndSlashes with
  | error cause =>
      rw [hlookup] at hmake
      cases hmake
  | ok spot =>
      rw [hlookup] at hmake
      cases spot with
      | found known entry => cases hmake
      | vacant known slashed =>
          cases hmake
          have hput := at?_put hlookup .directory place
          split at hput
          · rename_i hplace
            subst hplace
            refine .inr ⟨above, habove, ?_⟩
            rcases Disk.lookup_vacant_of_grows hlookup hgrows.disk with ⟨hnone, -⟩ | ⟨-, hfound⟩
            · cases hput.symm.trans hnone
            · exact hfound
          · exact .inl hput

end MakesAbove

theorem makesAbove_makeDirectories (m : Machine) (p : Path) :
    m.MakesAbove p (m.makeDirectories p).1 :=
  makeDirectoriesFrom_induction (fun m => MakesAbove.refl m p) .trans _ m p fun habove hmake =>
    .of_makeDirectory habove hmake

end Machine

namespace Layout

/-- The project has its root in the directory `home`, and no link is in the way of its own files. -/
structure LivesIn (l : Layout) (m : Machine) (home : Place) : Prop where
  /-- The path of the root is absolute. -/
  absolute : l.root.isAbsolute
  /-- It leads to the directory. -/
  opens : m.Opens l.root home
  /-- No own name is that of a link. -/
  unlinked : m.disk.Unlinked

variable {l : Layout} {m after : Machine} {home place : Place} {name : String} {spot : Spot}
  {content : ByteArray} {executable : Bool}

theorem namesEntry_metaDirectory : NamesEntry ".dll-forge".toList := by decide

/-- The own files are found in their directory. -/
theorem livesIn_of_find (hroot : l.root.isAbsolute) (hunlinked : m.disk.Unlinked)
    (hname : name ∈ ["project.json", "last_build.json"])
    (hfind : m.find (l.metaDirectory.join ⟨name⟩) = .ok spot) :
    ∃ home, l.LivesIn m home ∧ m.disk.at? (home ++ [".dll-forge"]) = some .directory ∧
      spot.place = home ++ [".dll-forge", name] := by
  have hisName : Path.IsName name := by
    fin_cases hname <;> exact ⟨by decide, by decide⟩
  have hnamed : NamesEntry name.toList := by
    fin_cases hname <;> decide
  obtain ⟨own, hown⟩ := Disk.lookup_front l.endsNamed_metaDirectory hisName hfind
  obtain ⟨home, hhome, hbehind⟩ := Disk.lookup_joined hroot ⟨by decide, by decide⟩ hown
  obtain ⟨next, hnext, hplace⟩ := @Disk.exists_leads_unlinked m.disk true ".dll-forge" home
    namesEntry_metaDirectory (hunlinked _ (by simp) home)
  obtain rfl : Spot.found own .directory = next := hbehind next hnext
  obtain rfl : own = home ++ [".dll-forge"] := hplace
  refine ⟨home, ⟨hroot, hhome, hunlinked⟩, Disk.lookup_stands hown, ?_⟩
  obtain ⟨last, hlast, hthere⟩ := @Disk.exists_leads_unlinked m.disk true name
    (home ++ [".dll-forge"]) hnamed (hunlinked _ (List.mem_cons_of_mem _ hname) _)
  obtain rfl := Disk.lookup_behind l.endsNamed_metaDirectory hisName hown hfind hlast
  rw [hthere, List.append_assoc]
  rfl

namespace LivesIn

variable (hlives : l.LivesIn m home)

include hlives

theorem of_grows (hgrows : m.Grows after) : l.LivesIn after home where
  absolute := hlives.absolute
  opens := hlives.opens.of_keeps hlives.absolute hgrows.disk.keeps
  unlinked := hgrows.unlinked hlives.unlinked

theorem of_writes {p : Path} (hwrites : m.Writes p content place executable after) :
    l.LivesIn after home where
  absolute := hlives.absolute
  opens := hlives.opens.of_keeps hlives.absolute hwrites.keeps
  unlinked := hwrites.unlinked hlives.unlinked

theorem place_of_find (hname : name ∈ ["project.json", "last_build.json"])
    (hfind : m.find (l.metaDirectory.join ⟨name⟩) = .ok spot) :
    spot.place = home ++ [".dll-forge", name] := by
  obtain ⟨other, hother, -, hplace⟩ :=
    livesIn_of_find hlives.absolute hlives.unlinked hname hfind
  rw [hlives.opens.unique hother.opens, hplace]

/-- Writing an own file changes no other one. -/
theorem ownChanges_of_writes (hname : name ∈ ["project.json", "last_build.json"])
    (hwrites : m.Writes (l.metaDirectory.join ⟨name⟩) content place executable after)
    (made : Bool) : m.disk.OwnChanges home made [name] after.disk := by
  intro other
  obtain ⟨spot, hfind, rfl⟩ := hwrites.exists_spot
  have hplace := hlives.place_of_find hname hfind
  by_cases hother : other = spot.place
  · subst hother
    exact .inr (.inr ⟨name, List.mem_cons_self, hplace, content, executable, hwrites.at?_place⟩)
  · exact .inl ((hwrites.disk other).trans (if_neg hother))

/-- Where the root leads to a directory at most the directory of the own files is made. -/
theorem makeDirectories_cases :
    (m.makeDirectories l.metaDirectory).1 = m ∨
      m.disk.at? (home ++ [".dll-forge"]) = none ∧
      ∀ place, (m.makeDirectories l.metaDirectory).1.disk.at? place =
        if place = home ++ [".dll-forge"] then some .directory else m.disk.at? place := by
  have hisName : Path.IsName ".dll-forge" := ⟨by decide, by decide⟩
  have hends := l.endsNamed_metaDirectory
  rcases hlookup : m.disk.lookup m.directory false l.metaDirectory with
    cause | ⟨known, entry⟩ | ⟨known, slashed⟩
  · have hmissing : cause ≠ .notFound := by
      rintro rfl
      exact Disk.lookup_joined_ne_notFound hlives.absolute hisName namesEntry_metaDirectory
        (by decide) hlives.opens hlookup
    exact .inl (Machine.makeDirectories_of_error hends hmissing hlookup)
  · rw [Machine.makeDirectories_of_lookup hends hlookup]
    exact .inl rfl
  · obtain ⟨other, hother, hbehind⟩ := Disk.lookup_joined hlives.absolute hisName hlookup
    obtain rfl := hlives.opens.unique hother
    obtain ⟨next, hnext, hplace⟩ := @Disk.exists_leads_unlinked m.disk false ".dll-forge" home
      namesEntry_metaDirectory (hlives.unlinked _ (by simp) home)
    obtain rfl : Spot.vacant known slashed = next := hbehind next hnext
    obtain rfl : known = home ++ [".dll-forge"] := hplace
    rw [Machine.makeDirectories_of_vacant hends hlookup]
    exact .inr ⟨(Disk.lookup_stands hlookup).1, Machine.at?_put hlookup .directory⟩

theorem ownChanges_makeDirectories (names : List String) :
    m.disk.OwnChanges home true names (m.makeDirectories l.metaDirectory).1.disk := by
  rcases hlives.makeDirectories_cases with hsame | ⟨hvacant, hput⟩
  · rw [hsame]
    exact .refl home true names m.disk
  · intro place
    by_cases hplace : place = home ++ [".dll-forge"]
    · refine .inr (.inl ⟨rfl, hplace, hplace ▸ hvacant, ?_⟩)
      rw [hput, if_pos hplace]
    · exact .inl ((hput place).trans (if_neg hplace))

end LivesIn

end Layout

end ScriptAssembly
