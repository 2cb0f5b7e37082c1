import ScriptAssembly.Proofs.Collect.Walk
import ScriptAssembly.Proofs.Path.Set
import ScriptAssembly.Proofs.Session

/-!
# Identities of collected sources

A collected source is spelt by the names that a walk has shown, behind the identity of its folder.
They lead to a file.  If the way stays short, the source is its own identity exactly if none of the
names is that of a link; if it does not, nothing about the source is resolved.  So a walk that
passes links over lists each file once and by its identity, and a walk that follows them may list
one file by several paths, of which one at most is its resolved identity.  A source that is listed
by its identity is removed alone; one that is listed through a link is not removed by its own path.
-/

namespace ScriptAssembly

namespace Disk

variable {d : Disk} {followLinks : Bool} {root : Path} {inside : List Place}
  {names here home : Place} {name : String}

/-- A route that passes links over is where its names say. -/
theorem Route.here_eq (hroute : d.Route false root home inside names here) :
    here = home ++ names := by
  generalize hpassed : false = followLinks at hroute
  induction hroute with
  | start => exact (List.append_nil home).symm
  | enter _ hentry ih =>
      rcases walkEntry_eq_directory hentry with ⟨rfl, -⟩ | ⟨hfollow, -⟩
      · rw [ih, List.append_assoc]
      · cases hpassed.trans hfollow

/-- The names of a file in a directory that a route has come to lead to a file, which stands in this
directory if links are passed over. -/
theorem Route.exists_file (hnamed : d.Named) (hroot : root.isAbsolute) (hhome : d.Enters root home)
    (hroute : d.Route followLinks root home inside names here)
    (hentry : d.walkEntry followLinks inside (root.under names) here name = .file) :
    ∃ place content executable, d.locate [] true (root.under (names ++ [name])) =
      .ok (.found place (.file content executable)) ∧
      (followLinks = false → place = here ++ [name]) := by
  rw [Path.under_concat]
  have habsolute := Path.isAbsolute_under hroot names
  have hname := name_of_walkEntry hnamed (hentry.trans_ne (by simp))
  rcases walkEntry_eq_file hentry with
    ⟨content, executable, hfile⟩ | ⟨hfollow, -, place, content, executable, hlookup⟩
  · refine ⟨here ++ [name], content, executable, ?_, fun _ => rfl⟩
    refine locate_child habsolute hname (hroute.enters hnamed hroot hhome) fun links => ?_
    have hchild : d.at? (here ++ [.ofList name.toList]) = some (.file content executable) := by
      rw [String.ofList_toList]
      exact hfile
    have hleads := @Leads.file d true links here _ _ _ hname.named hchild
    rwa [String.ofList_toList] at hleads
  · refine ⟨place, content, executable, ?_, fun hpassed => nomatch hfollow.symm.trans hpassed⟩
    rw [d.locate_of_isAbsolute (Path.isAbsolute_join_of_isAbsolute habsolute _)]
    exact locate_of_lookup hlookup

end Disk

namespace Collector

variable {m : Machine} {c : Collector} {folder p q : Path}

/-- A collected source leads to a file, which stands below the root of the walk by the source's own
names if links are passed over. -/
theorem exists_place_of_mem_collect (hnamed : m.disk.Named) (hp : p ∈ c.collect m folder) :
    ∃ home names place : Place, m.IsRoot folder home ∧ p = (m.identity folder).under names ∧
      (∀ name ∈ names, IsEntryName name) ∧ names ≠ [] ∧ m.disk.IsFileAt place ∧
      m.LeadsTo p place ∧ (c.followLinks = false → place = home ++ names) := by
  obtain ⟨home, file, hroot, hfile, rfl, -, hne, hnames⟩ := exists_names_of_mem_collect hnamed hp
  have hhome := hroot.enters
  obtain ⟨inside, front, here, name, hroute, hentry, rfl⟩ :=
    Disk.Route.start.exists_file_of_mem_filesBelow hfile
  obtain ⟨place, content, executable, hlocate, hpassed⟩ :=
    hroute.exists_file hnamed hroot.isAbsolute hhome hentry
  rw [m.disk.locate_of_isAbsolute (Path.isAbsolute_under hroot.isAbsolute _) [] m.directory]
    at hlocate
  refine ⟨home, _, place, hroot, rfl, hnames, hne,
    ⟨content, executable, (Disk.stands_of_locate hlocate).1⟩, ⟨_, hlocate⟩, fun hfollow => ?_⟩
  rw [hfollow] at hroute
  rw [hpassed hfollow, hroute.here_eq, List.append_assoc]

theorem isAbsolute_of_mem_collect (hnamed : m.disk.Named) (hp : p ∈ c.collect m folder) :
    p.isAbsolute := by
  obtain ⟨home, names, hroot, -, rfl, -⟩ := exists_names_of_mem_collect hnamed hp
  exact Path.isAbsolute_under hroot.isAbsolute names

/-- A collected source that is resolved is written as the path of a place. -/
theorem isPlaced_of_mem_collect (hnamed : m.disk.Named) (hp : p ∈ c.collect m folder)
    (hshort : m.staysShort p) : p.IsPlaced := by
  obtain ⟨home, names, hroot, -, rfl, -, hne, hnames⟩ := exists_names_of_mem_collect hnamed hp
  exact ⟨home ++ names, hroot.under_eq hnamed hnames hne hshort,
    List.forall_mem_append.mpr ⟨hnamed home _ hroot.directory, hnames⟩⟩

/-- Whether a collected source is its own identity. -/
theorem identity_eq_iff_of_mem_collect (hnamed : m.disk.Named) (hp : p ∈ c.collect m folder) :
    m.identity p = p ↔ (m.staysShort p → m.disk.GoesStraight p) := by
  obtain ⟨home, names, place, -, -, -, -, -, hleads, -⟩ := exists_place_of_mem_collect hnamed hp
  have habsolute := isAbsolute_of_mem_collect hnamed hp
  rw [← Machine.same_identity_self_iff hnamed habsolute hleads]
  constructor
  · intro hkept
    rw [hkept]
    rfl
  · intro hsame
    cases hshort : m.staysShort p with
    | true =>
        have hplaced := isPlaced_of_mem_collect hnamed hp hshort
        exact (hplaced.eq_of_same (Machine.isPlaced_identity hnamed hleads hshort) hsame).symm
    | false =>
        obtain ⟨e, hcanonical⟩ := Machine.canonical_of_unresolved fun _ _ => hshort
        exact Machine.identity_of_absolute hcanonical habsolute

/-- Where links are passed over, one file is listed once. -/
theorem eq_of_leadsTo_of_mem_collect (hnamed : m.disk.Named) (hpassed : c.followLinks = false)
    {place : Place} (hp : p ∈ c.collect m folder) (hq : q ∈ c.collect m folder)
    (hleads : m.LeadsTo p place) (hother : m.LeadsTo q place) : p = q := by
  obtain ⟨home, names, file, hroot, rfl, -, -, -, ⟨entry, hfile⟩, hplace⟩ :=
    exists_place_of_mem_collect hnamed hp
  obtain ⟨origin, others, other, horigin, rfl, -, -, -, ⟨known, hbeside⟩, hotherPlace⟩ :=
    exists_place_of_mem_collect hnamed hq
  obtain ⟨_, hfirst⟩ := hleads
  obtain ⟨_, hsecond⟩ := hother
  cases hfile.symm.trans hfirst
  cases hbeside.symm.trans hsecond
  cases hroot.symm.trans horigin
  have hsame := (hplace hpassed).symm.trans (hotherPlace hpassed)
  rw [List.append_cancel_left hsame]

end Collector

namespace Session

variable {m : Machine} {c : Collector} {folder p : Path} {s : Session}

theorem sources_addFolder (hnew : s.folders.contains (m.identity folder) = false) :
    (s.addFolder m c folder).sources = s.sources.insertMany (c.collect m (m.identity folder)) := by
  rw [addFolder_of_new hnew]

/-- A source that is its own identity is removed alone. -/
theorem removeSource_of_identity (hidentity : m.identity p = p)
    (hknown : s.sources.contains p = true) :
    ∃ before kept behind left, s.sources.toList = before ++ kept :: behind ∧ kept.Same p ∧
      left.toList = before ++ behind ∧ s.removeSource m p = { s with sources := left } := by
  obtain ⟨before, kept, behind, hsplit, hsame, herase⟩ := PathSet.toList_erase_of_contains hknown
  refine ⟨before, kept, behind, s.sources.erase p, hsplit, hsame, herase, ?_⟩
  rw [removeSource, hidentity]

end Session

/-- A collected source leads to a file.  If its way stays short, its identity is the path of the
file's place, and it is its own identity exactly if there is no link on the way along its names;
else it is its own identity.  Where links are passed over it always is, and no file is listed twice;
and whatever is followed, there is one resolved path at most to a place that is its own identity.  A
folder that is new adds collected sources alone, and of these one that is its own identity is
removed with its one entry, which is written like it unless another spelling was there before, and
nothing else is changed; one that is not is still there when it has been removed. -/
theorem Collector.identity_of_collected {m : Machine} (hnamed : m.disk.Named) (c : Collector)
    (folder : Path) :
    (∀ p ∈ c.collect m folder, ∃ names place : Place, p = (m.identity folder).under names ∧
      m.disk.IsFileAt place ∧ m.LeadsTo p place ∧
      m.identity p = (if m.staysShort p then place.path else p) ∧
      (m.identity p = p ↔ (m.staysShort p → m.disk.GoesStraight p)) ∧
      (c.followLinks = false → m.identity p = p)) ∧
    (c.followLinks = false → ∀ p ∈ c.collect m folder, ∀ q ∈ c.collect m folder, ∀ place,
      m.LeadsTo p place → m.LeadsTo q place → p = q) ∧
    (∀ p q place, m.identity p = p → m.identity q = q → m.LeadsTo p place → m.LeadsTo q place →
      m.staysShort p → m.staysShort q → p = q) ∧
    ∀ s : Session, s.folders.contains (m.identity folder) = false →
      let after := s.addFolder m c folder
      let listed := c.collect m (m.identity folder)
      (∀ p ∈ after.sources.toList, p ∈ s.sources.toList ∨ p ∈ listed) ∧
      (∀ p ∈ listed, m.identity p = p → ∃ before kept behind left,
        after.sources.toList = before ++ kept :: behind ∧ kept.Same p ∧
        (kept = p ∨ kept ∈ s.sources.toList) ∧ left.toList = before ++ behind ∧
        after.removeSource m p = { after with sources := left }) ∧
      ∀ p ∈ listed, m.identity p ≠ p → p ∈ after.sources.toList →
        p ∈ (after.removeSource m p).sources.toList := by
  refine ⟨fun p hp => ?_, fun hpassed p hp q hq place hleads hother =>
    eq_of_leadsTo_of_mem_collect hnamed hpassed hp hq hleads hother,
    fun p q place hp hq hleads hother hshort hbeside => ?_, fun s hnew => ?_⟩
  · obtain ⟨home, names, place, -, hpath, -, -, hfile, hleads, -⟩ :=
      exists_place_of_mem_collect hnamed hp
    refine ⟨names, place, hpath, hfile, hleads,
      Machine.identity_eq_ite (isAbsolute_of_mem_collect hnamed hp) hleads,
      identity_eq_iff_of_mem_collect hnamed hp, fun hpassed => ?_⟩
    obtain ⟨extension, follows⟩ := c
    subst hpassed
    exact (identity_of_mem_collect hnamed hp).2
  · rw [← hp, ← hq, Machine.identity_of_leadsTo hleads hshort,
      Machine.identity_of_leadsTo hother hbeside]
  · intro after listed
    have hsources : after.sources = s.sources.insertMany listed := Session.sources_addFolder hnew
    have hadded : ∀ p ∈ after.sources.toList, p ∈ s.sources.toList ∨ p ∈ listed := by
      rw [hsources]
      exact PathSet.forall_mem_insertMany (fun p hp => .inl hp) fun p hp => .inr hp
    refine ⟨hadded, fun p hp hidentity => ?_, fun p hp hother hmem => ?_⟩
    · have hknown : after.sources.contains p = true := by
        rw [hsources]
        exact PathSet.contains_insertMany_of_mem hp
      obtain ⟨before, kept, behind, left, hsplit, hsame, hleft, hremove⟩ :=
        Session.removeSource_of_identity hidentity hknown
      refine ⟨before, kept, behind, left, hsplit, hsame, ?_, hleft, hremove⟩
      rcases hadded kept (hsplit ▸ by simp) with hold | hlisted
      · exact .inr hold
      · exact .inl (eq_of_same_of_mem_collect hnamed hlisted hp hsame)
    · obtain ⟨home, names, place, -, -, -, -, -, hleads, -⟩ :=
        exists_place_of_mem_collect hnamed hp
      refine List.mem_filter.mpr ⟨hmem, ?_⟩
      have hshort : m.staysShort p := by
        by_contra hlong
        exact hother ((identity_eq_iff_of_mem_collect hnamed hp).mpr fun hshort =>
          absurd hshort hlong)
      have hplaced := isPlaced_of_mem_collect hnamed hp hshort
      have happart : ¬p.Same (m.identity p) := fun hsame =>
        hother (hplaced.eq_of_same (Machine.isPlaced_identity hnamed hleads hshort) hsame).symm
      simpa using happart

namespace Collector

open Session

/-- A source and a link to it. -/
def twins : Machine where
  disk := ⟨[(["a.cs"], .file .empty false), (["b.cs"], .link ⟨"a.cs"⟩)]⟩
  directory := []
  environment := []

theorem named_twins : twins.disk.Named := Disk.named_of_entries (by decide)

theorem leadsTo_root_twins : twins.LeadsTo ⟨"/"⟩ [] := ⟨.directory, Disk.locate_of_lookup <|
  Disk.lookup_of_leads ["".toList, "".toList] (by decide) rfl
    (.silent (.inl rfl) (.silent (.inl rfl) .arrived))⟩

theorem short_twins : twins.disk.Short := Disk.short_of_entries (by decide)

theorem identity_root_twins : twins.identity ⟨"/"⟩ = ⟨"/"⟩ :=
  Machine.identity_of_leadsTo leadsTo_root_twins
    (Machine.staysShort_of_leadsTo short_twins leadsTo_root_twins)

theorem isRoot_twins : twins.IsRoot ⟨"/"⟩ [] := by
  rw [Machine.IsRoot, identity_root_twins]
  exact Disk.lookup_of_leads ["".toList, "".toList] (by decide) rfl
    (.silent (.inl rfl) (.silent (.inl rfl) .arrived))

theorem lookup_link_twins :
    twins.disk.lookup [] true ⟨"/b.cs"⟩ = .ok (.found ["a.cs"] (.file .empty false)) := by
  refine Disk.lookup_of_leads ["".toList, "b.cs".toList] (by decide) rfl ?_
  exact .silent (.inl rfl) (.linked (by decide) rfl rfl (.file (by decide) rfl))

theorem leadsTo_source_twins : twins.LeadsTo ⟨"/a.cs"⟩ ["a.cs"] := by
  have hlookup : twins.disk.lookup [] true ⟨"/a.cs"⟩ =
      .ok (.found ["a.cs"] (.file .empty false)) := by
    refine Disk.lookup_of_leads ["".toList, "a.cs".toList] (by decide) rfl ?_
    exact .silent (.inl rfl) (.file (by decide) rfl)
  exact ⟨_, Disk.locate_of_lookup hlookup⟩

theorem leadsTo_link_twins : twins.LeadsTo ⟨"/b.cs"⟩ ["a.cs"] :=
  ⟨_, Disk.locate_of_lookup lookup_link_twins⟩

theorem walkEntry_link_twins (followLinks : Bool) :
    twins.disk.walkEntry followLinks [[]] (Path.under ⟨"/"⟩ []) [] "b.cs" =
      if followLinks then .file else .skipped := by
  have hlink : twins.disk.at? ([] ++ ["b.cs"]) = some (.link ⟨"a.cs"⟩) := rfl
  have hpath : (Path.under ⟨"/"⟩ []).join ⟨"b.cs"⟩ = ⟨"/b.cs"⟩ := by decide
  rw [Disk.walkEntry, hlink]
  simp only [hpath, lookup_link_twins]

theorem names_twins : twins.disk.names [] = ["a.cs", "b.cs"] := by
  have hlisted : twins.disk.names [] = ["a.cs", "b.cs"].eraseDups.mergeSort (· ≤ ·) := rfl
  have hdistinct : ["a.cs", "b.cs"].eraseDups = ["a.cs", "b.cs"] := by decide
  rw [hlisted, hdistinct]
  apply List.mergeSort_of_pairwise
  decide

/-- Both names are listed if links are followed. -/
theorem collect_twins (followLinks : Bool) :
    (Collector.mk "cs" followLinks).collect twins ⟨"/"⟩ =
      ⟨"/a.cs"⟩ :: if followLinks then [⟨"/b.cs"⟩] else [] := by
  rw [collect_of_isRoot isRoot_twins, identity_root_twins, Disk.filesBelow_eq, Disk.listing,
    if_neg (by decide), names_twins, List.flatMap_cons, List.flatMap_singleton]
  have hfile : twins.disk.walkEntry followLinks [[]] (Path.under ⟨"/"⟩ []) [] "a.cs" = .file := rfl
  simp only [Disk.filesUnder, hfile, walkEntry_link_twins]
  cases followLinks
  · decide
  · decide

theorem identity_source_twins : twins.identity ⟨"/a.cs"⟩ = ⟨"/a.cs"⟩ :=
  Machine.identity_of_leadsTo leadsTo_source_twins
    (Machine.staysShort_of_leadsTo short_twins leadsTo_source_twins)

theorem identity_link_twins : twins.identity ⟨"/b.cs"⟩ = ⟨"/a.cs"⟩ :=
  Machine.identity_of_leadsTo leadsTo_link_twins
    (Machine.staysShort_of_leadsTo short_twins leadsTo_link_twins)

theorem identity_of_collected_twins :
    twins.disk.Named ∧ empty.folders.contains (twins.identity ⟨"/"⟩) = false ∧
    (∀ p ∈ (Collector.mk "cs" false).collect twins ⟨"/"⟩, twins.identity p = p) ∧
    (Collector.mk "cs" true).collect twins ⟨"/"⟩ = [⟨"/a.cs"⟩, ⟨"/b.cs"⟩] ∧
    twins.identity ⟨"/a.cs"⟩ = ⟨"/a.cs"⟩ ∧ twins.identity ⟨"/b.cs"⟩ ≠ ⟨"/b.cs"⟩ ∧
    ¬twins.disk.GoesStraight ⟨"/b.cs"⟩ ∧
    let after := empty.addFolder twins ⟨"cs", true⟩ ⟨"/"⟩
    (∃ before behind left, after.sources.toList = before ++ ⟨"/a.cs"⟩ :: behind ∧
      left.toList = before ++ behind ∧
      after.removeSource twins ⟨"/a.cs"⟩ = { after with sources := left }) ∧
    ⟨"/b.cs"⟩ ∈ (after.removeSource twins ⟨"/b.cs"⟩).sources.toList := by
  have hnew : empty.folders.contains (twins.identity ⟨"/"⟩) = false := rfl
  have hlisted : (Collector.mk "cs" true).collect twins ⟨"/"⟩ = [⟨"/a.cs"⟩, ⟨"/b.cs"⟩] :=
    collect_twins true
  have hother : twins.identity ⟨"/b.cs"⟩ ≠ ⟨"/b.cs"⟩ := by
    rw [identity_link_twins]
    decide
  obtain ⟨hpassed, -⟩ := identity_of_collected named_twins ⟨"cs", false⟩ ⟨"/"⟩
  obtain ⟨hsources, -, -, hfolder⟩ := identity_of_collected named_twins ⟨"cs", true⟩ ⟨"/"⟩
  obtain ⟨-, hremove, hstays⟩ := hfolder empty hnew
  rw [identity_root_twins, hlisted] at hremove hstays
  obtain ⟨before, kept, behind, left, hsplit, -, hkept, hleft, hafter⟩ :=
    hremove ⟨"/a.cs"⟩ List.mem_cons_self identity_source_twins
  obtain rfl : kept = ⟨"/a.cs"⟩ := hkept.resolve_right (List.not_mem_nil)
  refine ⟨named_twins, hnew, ?_, hlisted, identity_source_twins, hother, ?_,
    ⟨before, behind, left, hsplit, hleft, hafter⟩, ?_⟩
  · intro p hp
    obtain ⟨-, -, -, -, -, -, -, hkept⟩ := hpassed p hp
    exact hkept rfl
  · have hlink : ⟨"/b.cs"⟩ ∈ (Collector.mk "cs" true).collect twins ⟨"/"⟩ := by
      rw [hlisted]
      exact List.mem_cons_of_mem _ List.mem_cons_self
    obtain ⟨-, -, -, -, -, -, hiff, -⟩ := hsources _ hlink
    exact fun hstraight => hother (hiff.mpr fun _ => hstraight)
  · refine hstays ⟨"/b.cs"⟩ (List.mem_cons_of_mem _ List.mem_cons_self) hother ?_
    have hadded : (empty.addFolder twins ⟨"cs", true⟩ ⟨"/"⟩).sources = _ := sources_addFolder hnew
    rw [identity_root_twins, hlisted] at hadded
    rw [hadded]
    decide

/-- Where links are followed one file is collected twice.  The path through the link is not its own
identity, and removing it takes the file's own path out and leaves the one through the link. -/
theorem collected_through_link :
    let after := empty.addFolder twins ⟨"cs", true⟩ ⟨"/"⟩
    ⟨"/b.cs"⟩ ∈ (Collector.mk "cs" true).collect twins ⟨"/"⟩ ∧
    twins.identity ⟨"/b.cs"⟩ ≠ ⟨"/b.cs"⟩ ∧
    after.sources.toList = [⟨"/a.cs"⟩, ⟨"/b.cs"⟩] ∧
    (∀ p ∈ after.sources.toList, twins.LeadsTo p ["a.cs"]) ∧
    (after.removeSource twins ⟨"/b.cs"⟩).sources.toList = [⟨"/b.cs"⟩] := by
  intro after
  have hsources : after.sources = PathSet.ofList [⟨"/a.cs"⟩, ⟨"/b.cs"⟩] := by
    have hadded : after.sources = _ := sources_addFolder rfl
    rw [identity_root_twins, collect_twins] at hadded
    exact hadded
  refine ⟨?_, ?_, ?_, ?_, ?_⟩
  · rw [collect_twins]
    exact List.mem_cons_of_mem _ List.mem_cons_self
  · rw [identity_link_twins]
    decide
  · rw [hsources]
    decide
  · have hlisted : after.sources.toList = [⟨"/a.cs"⟩, ⟨"/b.cs"⟩] := by
      rw [hsources]
      decide
    rw [hlisted]
    intro p hp
    rcases List.mem_pair.mp hp with rfl | rfl
    · exact leadsTo_source_twins
    · exact leadsTo_link_twins
  · rw [removeSource, identity_link_twins, hsources]
    decide

end Collector

end ScriptAssembly
