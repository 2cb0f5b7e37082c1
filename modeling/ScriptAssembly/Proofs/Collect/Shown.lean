import ScriptAssembly.Proofs.Machine.Spelling

/-!
# Paths that a walk shows

A walk shows what it finds by the names that led there, behind the identity of its folder.  Behind
the path of a place they make the path of a place again.  Where a folder is not resolved, because a
path on its way is too long, its identity is its own spelling, and no path behind it is resolved
either.
-/

namespace ScriptAssembly

namespace Path

variable {root : Path} {place names others : Place} {name : String}

theorem under_append (root : Path) (names others : Place) :
    root.under (names ++ others) = (root.under names).under others := List.foldl_append

theorem under_concat (root : Path) (names : Place) (name : String) :
    root.under (names ++ [name]) = (root.under names).join ⟨name⟩ := under_append root names [name]

theorem isAbsolute_under (hroot : root.isAbsolute) (names : Place) :
    (root.under names).isAbsolute := by
  induction names generalizing root with
  | nil => exact hroot
  | cons name names ih => exact ih (isAbsolute_join_of_isAbsolute hroot ⟨name⟩)

theorem said_name (hname : IsEntryName name) : (Path.mk name).said = [.entry name] := by
  have hpiece : component? name.toList = some (.entry name) := by
    rw [component?, if_neg hname.named.spoken, if_neg hname.named.notAbove, String.ofList_toList]
  rw [← filterMap_split, Text.split_of_not_mem hname.slashless, List.filterMap_cons_some hpiece]
  rfl

theorem components_under (hroot : root.isAbsolute) (hnames : ∀ name ∈ names, IsEntryName name) :
    (root.under names).components = root.components ++ names.map .entry := by
  induction names generalizing root with
  | nil => exact (List.append_nil _).symm
  | cons name names ih =>
      have hname := hnames name List.mem_cons_self
      have hjoined := isAbsolute_join_of_isAbsolute hroot ⟨name⟩
      have hcomponents := ih hjoined fun other hother =>
        hnames other (List.mem_cons_of_mem name hother)
      rw [components_join (text_ne_of_isAbsolute hroot) hname.isName.isAbsolute, said_name hname]
        at hcomponents
      rw [List.map_cons, List.append_cons]
      exact hcomponents

/-- Names behind one root that make spellings of one path are the same. -/
theorem eq_of_same_under (hroot : root.isAbsolute) (hnames : ∀ name ∈ names, IsEntryName name)
    (hothers : ∀ name ∈ others, IsEntryName name)
    (hsame : (root.under names).Same (root.under others)) : names = others := by
  rw [Same, components_under hroot hnames, components_under hroot hothers] at hsame
  exact List.map_injective_iff.mpr (fun _ _ hentry => Component.entry.inj hentry)
    (List.append_cancel_left hsame)

theorem join_path (hplace : ∀ name ∈ place, IsEntryName name) (hname : IsEntryName name) :
    place.path.join ⟨name⟩ = (place ++ [name] : Place).path := by
  rw [Path.mk.injEq, ← String.toList_inj, Place.toList_text_join hplace hname.isName.isAbsolute,
    Place.toList_text_path (by simp), Place.chars, Place.chars, List.flatMap_append,
    List.flatMap_singleton]

/-- Names behind the path of a place make the path of the place below it. -/
theorem under_path (hplace : ∀ name ∈ place, IsEntryName name)
    (hnames : ∀ name ∈ names, IsEntryName name) :
    place.path.under names = (place ++ names : Place).path := by
  induction names generalizing place with
  | nil => rw [List.append_nil]; rfl
  | cons name names ih =>
      have hname := hnames name List.mem_cons_self
      have hlonger : ∀ other ∈ place ++ [name], IsEntryName other := by
        intro other hother
        rcases List.mem_append.mp hother with hknown | hnew
        · exact hplace other hknown
        · exact List.mem_singleton.mp hnew ▸ hname
      have hrest := ih hlonger fun other hother => hnames other (List.mem_cons_of_mem name hother)
      rw [← join_path hplace hname, List.append_assoc] at hrest
      exact hrest

/-- A name joined to an absolute path is the last piece, and the pieces in front of it are a
spelling of that path. -/
theorem exists_pieces_join (hroot : root.isAbsolute) (hname : IsName name) :
    ∃ before, Text.split '/' (root.join ⟨name⟩).text.toList = before ++ [name.toList] ∧
      spoken before = spoken (Text.split '/' root.text.toList) := by
  obtain ⟨before, hfront, hcomponents⟩ := exists_slash_front (text_ne_of_isAbsolute hroot)
  refine ⟨Text.split '/' before, ?_, ?_⟩
  · rw [join_of_relative root hname.isAbsolute, String.toList_append, hfront, List.append_assoc,
      List.singleton_append, Text.split_append_cons, Text.split_of_not_mem hname.slashless]
  · have hsame : Same ⟨.ofList (before ++ ['/'])⟩ root := hcomponents
    rw [hsame.spoken, String.toList_ofList, Text.split_append_cons, spoken, spoken,
      List.filter_append]
    exact (List.append_nil _).symm

/-- Names behind an absolute path are the last pieces, and the pieces in front of them are a
spelling of that path. -/
theorem exists_pieces_under (hroot : root.isAbsolute) (hnames : ∀ name ∈ names, IsName name)
    (hne : names ≠ []) :
    ∃ before, Text.split '/' (root.under names).text.toList =
        before ++ names.map String.toList ∧
      spoken before = spoken (Text.split '/' root.text.toList) := by
  induction names using List.reverseRecOn with
  | nil => exact absurd rfl hne
  | append_singleton names name ih =>
      have hname := hnames name (List.mem_append_right names List.mem_cons_self)
      have hfront := fun other hother => hnames other (List.mem_append_left [name] hother)
      by_cases hfirst : names = []
      · subst hfirst
        exact exists_pieces_join hroot hname
      · obtain ⟨others, last, rfl⟩ : ∃ others last, names = others ++ [last] :=
          ⟨_, _, (List.dropLast_concat_getLast hfirst).symm⟩
        obtain ⟨before, hsplit, hspoken⟩ := ih hfront (by simp)
        have hends : (root.under (others ++ [last])).EndsNamed := by
          rw [under_concat]
          exact endsNamed_join _ (hfront last (by simp))
        have hmapped : (others ++ [last] ++ [name]).map String.toList =
            (others ++ [last]).map String.toList ++ [name.toList] := List.map_append
        refine ⟨before, ?_, hspoken⟩
        rw [under_concat, toList_text_join hends hname, Text.split_append_cons, hsplit,
          Text.split_of_not_mem hname.slashless, hmapped, List.append_assoc]

end Path

namespace Disk

variable {d : Disk} {root : Path} {here place : Place} {names : Place} {name : String}
  {spot : Spot} {through : Bool}

/-- A name joined to an absolute path to a directory leads where it leads in that directory. -/
theorem locate_child (hroot : root.isAbsolute) (hname : IsEntryName name)
    (hlocate : d.locate here true root = .ok (.found place .directory))
    (hleads : ∀ links, d.Leads through links place [name.toList] spot) :
    d.locate here through (root.join ⟨name⟩) = .ok spot := by
  obtain ⟨hclean, -, -, hfront⟩ := locate_eq_ok_iff.mp hlocate
  obtain ⟨before, hsplit, hspoken⟩ := Path.exists_pieces_join hroot hname.isName
  have hjoined := Path.isAbsolute_join_of_isAbsolute hroot ⟨name⟩
  rw [origin, if_pos hroot] at hfront
  refine locate_eq_ok_iff.mpr ⟨fun hnull => ?_, ?_, ?_, ?_⟩
  · rw [Path.join_of_relative root hname.isName.isAbsolute, String.toList_append, Path.front]
      at hnull
    rcases List.mem_append.mp hnull with hbefore | hlast
    · split at hbefore
      · exact hclean hbefore
      · rw [String.toList_append] at hbefore
        rcases List.mem_append.mp hbefore with hbefore | hslash
        · exact hclean hbefore
        · cases List.mem_singleton.mp hslash
    · exact hname.clean hlast
  · simpa using Path.text_ne_of_isAbsolute hjoined
  · rw [origin, if_pos hjoined, at?_root]
  · rw [hsplit, origin, if_pos hjoined]
    exact (hfront.respelled hspoken).behind (List.cons_ne_nil _ _) hleads

/-- A walk meets names of entries. -/
theorem name_of_walkEntry (hnamed : d.Named) {followLinks : Bool} {inside : List Place}
    {shown : Path} (hmet : d.walkEntry followLinks inside shown here name ≠ .skipped) :
    IsEntryName name := by
  obtain ⟨entry, hentry⟩ := exists_at?_of_walkEntry hmet
  exact hnamed _ entry hentry name (List.mem_append_right here List.mem_cons_self)

theorem names_of_walkEntry (hnamed : d.Named) {followLinks : Bool} {inside : List Place}
    {shown : Path} (hnames : ∀ name ∈ names, IsEntryName name)
    (hmet : d.walkEntry followLinks inside shown here name ≠ .skipped) :
    ∀ other ∈ names ++ [name], IsEntryName other := by
  intro other hother
  rcases List.mem_append.mp hother with hknown | hnew
  · exact hnames other hknown
  · exact List.mem_singleton.mp hnew ▸ name_of_walkEntry hnamed hmet

/-- A walk lists names of entries. -/
theorem names_of_mem_filesBelow (hnamed : d.Named) {followLinks : Bool} {inside : List Place}
    {file : Place} (hnames : ∀ name ∈ names, IsEntryName name)
    (hfile : file ∈ d.filesBelow followLinks root inside names here) :
    ∀ name ∈ file, IsEntryName name := by
  induction inside, names, here using filesBelow.induct d followLinks root with
  | case1 inside names here ih =>
      obtain ⟨name, ⟨hentry, rfl⟩ | ⟨place, hentry, hbelow⟩⟩ := mem_filesBelow_cases hfile
      · exact names_of_walkEntry hnamed hnames (hentry.trans_ne (by simp))
      · have hlonger := names_of_walkEntry hnamed hnames (hentry.trans_ne (by simp))
        exact ih name place hentry hlonger hbelow

/-- What a walk lists stands below the directory that the walk is in. -/
theorem ne_nil_of_mem_filesBelow {followLinks : Bool} {inside : List Place} {file : Place}
    (hfile : file ∈ d.filesBelow followLinks root inside names here) : file ≠ [] := by
  induction inside, names, here using filesBelow.induct d followLinks root with
  | case1 inside names here ih =>
      obtain ⟨name, ⟨-, rfl⟩ | ⟨place, hentry, hbelow⟩⟩ := mem_filesBelow_cases hfile
      · simp
      · exact ih name place hentry hbelow

/-- Where links are passed over, a walk lists the places of files. -/
theorem file_of_mem_filesBelow {inside : List Place} {origin file : Place}
    (hhere : here = origin ++ names) (hfile : file ∈ d.filesBelow false root inside names here) :
    d.IsFileAt (origin ++ file) := by
  induction inside, names, here using filesBelow.induct d false root with
  | case1 inside names here ih =>
      subst hhere
      obtain ⟨name, ⟨hentry, rfl⟩ | ⟨place, hentry, hbelow⟩⟩ := mem_filesBelow_cases hfile
      · rcases walkEntry_eq_file hentry with ⟨content, executable, hstands⟩ | ⟨hfollow, -⟩
        · rw [List.append_assoc] at hstands
          exact ⟨content, executable, hstands⟩
        · cases hfollow
      · rcases walkEntry_eq_directory hentry with ⟨rfl, -⟩ | ⟨hfollow, -⟩
        · exact ih name _ hentry (List.append_assoc origin names [name]) hbelow
        · cases hfollow

end Disk

namespace Machine

variable {m : Machine} {folder root : Path} {place names : Place}

/-- A path behind a directory is not resolved unless the directory is. -/
theorem staysShort_of_under (hroot : root.isAbsolute)
    (hlocate : m.disk.locate m.directory true root = .ok (.found place .directory))
    (hnames : ∀ name ∈ names, IsEntryName name) (hshort : m.staysShort (root.under names)) :
    m.staysShort root := by
  cases names with
  | nil => exact hshort
  | cons name names =>
      obtain ⟨-, -, -, hleads⟩ := Disk.locate_eq_ok_iff.mp hlocate
      obtain ⟨before, hsplit, hspoken⟩ := Path.exists_pieces_under hroot
        (fun other hother => (hnames other hother).isName) (List.cons_ne_nil name names)
      have hunder := Path.isAbsolute_under hroot (name :: names)
      rw [Disk.origin, if_pos hroot] at hleads
      rw [staysShort, Disk.origin, if_pos hunder, hsplit] at hshort
      rw [staysShort, Disk.origin, if_pos hroot]
      exact hleads.staysShort_of_behind hspoken (hnames name List.mem_cons_self).named hshort

/-- The identity of the folder leads to this directory. -/
def IsRoot (m : Machine) (folder : Path) (root : Place) : Prop :=
  m.find (m.identity folder) = .ok (.found root .directory)

namespace IsRoot

variable (hroot : m.IsRoot folder place)

include hroot

theorem directory : m.disk.at? place = some .directory := Disk.lookup_stands hroot

theorem isAbsolute : (m.identity folder).isAbsolute := isAbsolute_identity_of_find hroot

/-- The root of a folder is shown by its path, or there is a slash behind that, or its identity is
not resolved. -/
theorem cases (hnamed : m.disk.Named) : m.identity folder = place.path ∨
    m.identity folder = place.path.join ⟨""⟩ ∨ m.staysShort (m.identity folder) = false := by
  have hlocate := locate_of_find hroot
  have hunresolved : ∀ e, m.canonical (m.identity folder) = .error e →
      m.staysShort (m.identity folder) = false := by
    intro e herror
    refine Bool.eq_false_iff.mpr fun hshort => ?_
    rw [canonical_of_leadsTo ⟨_, hlocate⟩ hshort] at herror
    cases herror
  cases hcanonical : m.canonical folder with
  | ok known =>
      obtain ⟨-, found, entry, hfound, rfl⟩ := canonical_eq_ok_iff.mp hcanonical
      obtain ⟨hentry, hlink⟩ := Disk.stands_of_locate hfound
      have hidentity : m.identity folder = found.path := by rw [identity, hcanonical]
      rw [hidentity, Disk.locate_path (hnamed found entry hentry) hentry hlink] at hlocate
      cases hlocate
      exact .inl hidentity
  | error e =>
      have habsolute := hroot.isAbsolute
      rcases identity_cases hcanonical with hkept | ⟨hrelative, hdirectory, hjoined⟩
      · rw [hkept] at hunresolved ⊢
        exact .inr (.inr (hunresolved e hcanonical))
      · by_cases hwritten : folder.text = ""
        · obtain rfl : folder = ⟨""⟩ := congrArg Path.mk hwritten
          rw [hjoined, Disk.locate_join_empty (hnamed _ _ hdirectory) hdirectory] at hlocate
          cases hlocate
          exact .inr (.inl hjoined)
        · obtain ⟨e, hjoin⟩ := canonical_join_of_error ⟨hdirectory, hnamed⟩ hrelative hwritten
            hcanonical
          rw [← hjoined] at hjoin
          exact .inr (.inr (hunresolved e hjoin))

/-- What is resolved behind the root of a folder is shown by the path of its place. -/
theorem under_eq (hnamed : m.disk.Named) (hnames : ∀ name ∈ names, IsEntryName name)
    (hne : names ≠ []) (hshort : m.staysShort ((m.identity folder).under names)) :
    (m.identity folder).under names = (place ++ names : Place).path := by
  have hplace := hnamed place _ hroot.directory
  rcases hroot.cases hnamed with hpath | hslashed | hlong
  · rw [hpath, Path.under_path hplace hnames]
  · rw [hslashed, ← Path.under_path hplace hnames]
    obtain ⟨name, others, rfl⟩ := List.exists_cons_of_ne_nil hne
    exact congrArg (Path.under · others) (Path.join_join_empty place.isAbsolute_path ⟨name⟩)
  · cases hlong.symm.trans
      (staysShort_of_under hroot.isAbsolute (locate_of_find hroot) hnames hshort)

end IsRoot

/-- An identity under which there is anything is written out. -/
theorem IsRoot.written (hroot : m.IsRoot (m.identity folder) place) :
    (m.identity folder).text ≠ "" := by
  intro hempty
  cases hcanonical : m.canonical folder with
  | ok known =>
      exact Path.text_ne_of_isAbsolute (isAbsolute_identity_of_canonical hcanonical) hempty
  | error e =>
      rcases identity_cases hcanonical with hkept | ⟨-, -, hjoined⟩
      · have hrooted := hroot.isAbsolute
        rw [hkept, hkept] at hrooted
        rw [hkept] at hempty
        exact Path.text_ne_of_isAbsolute hrooted hempty
      · rw [hjoined] at hempty
        have hrooted := Path.isAbsolute_join_of_isAbsolute m.directory.isAbsolute_path folder
        exact Path.text_ne_of_isAbsolute hrooted hempty

/-- Where an identity that exists is resolved, what is under it is shown behind a place's path. -/
theorem IsRoot.identity_eq (hnamed : m.disk.Named) (hroot : m.IsRoot (m.identity folder) place)
    (hresolves : m.Resolves (m.identity folder)) : m.identity (m.identity folder) = place.path := by
  have hleads : m.LeadsTo (m.identity folder) place :=
    ⟨_, locate_of_find_identity hnamed hroot.written hroot⟩
  exact identity_of_leadsTo hleads (hresolves place hleads)

/-- Spellings of one identity that are resolved have one identity. -/
theorem IsRoot.identity_eq_of_same (hnamed : m.disk.Named) {other : Path}
    (hroot : m.IsRoot (m.identity folder) place)
    (hsame : (m.identity folder).Same (m.identity other))
    (hfolder : m.Resolves (m.identity folder)) (hother : m.Resolves (m.identity other)) :
    m.identity (m.identity folder) = m.identity (m.identity other) := by
  have hlocate := locate_of_find_identity hnamed hroot.written hroot
  have hbeside : m.LeadsTo (m.identity other) place := ⟨_, Disk.locate_of_same hsame hlocate⟩
  rw [hroot.identity_eq hnamed hfolder, identity_of_leadsTo hbeside (hother place hbeside)]

end Machine

namespace Collector

variable {c : Collector} {m : Machine} {folder other p q : Path} {root : Place}

theorem collect_of_isRoot (hroot : m.IsRoot folder root) :
    c.collect m folder = ((m.disk.filesBelow c.followLinks (m.identity folder) [root] [] root).map
      (m.identity folder).under).filter c.admits := by
  unfold collect
  dsimp only
  rw [Machine.entry?_eq_some_iff.mpr hroot]

theorem collect_of_rootless (hrootless : ∀ root, ¬m.IsRoot folder root) :
    c.collect m folder = [] := by
  unfold collect
  dsimp only
  split
  · rename_i root hentry
    exact absurd (Machine.entry?_eq_some_iff.mp hentry) (hrootless root)
  · rfl

/-- What is listed is shown behind the folder's identity, by names of entries. -/
theorem exists_names_of_mem_collect (hnamed : m.disk.Named) (hp : p ∈ c.collect m folder) :
    ∃ root names, m.IsRoot folder root ∧
      names ∈ m.disk.filesBelow c.followLinks (m.identity folder) [root] [] root ∧
      p = (m.identity folder).under names ∧ c.admits p ∧ names ≠ [] ∧
      ∀ name ∈ names, IsEntryName name := by
  by_cases hrooted : ∃ root, m.IsRoot folder root
  · obtain ⟨root, hroot⟩ := hrooted
    rw [collect_of_isRoot hroot, List.mem_filter] at hp
    obtain ⟨hlisted, hadmitted⟩ := hp
    obtain ⟨names, hnames, rfl⟩ := List.mem_map.mp hlisted
    exact ⟨root, names, hroot, hnames, rfl, hadmitted, Disk.ne_nil_of_mem_filesBelow hnames,
      Disk.names_of_mem_filesBelow hnamed (List.forall_mem_nil _) hnames⟩
  · rw [collect_of_rootless (not_exists.mp hrooted)] at hp
    cases hp

/-- Paths that are listed for one folder are spellings of one path only if they are the same. -/
theorem eq_of_same_of_mem_collect (hnamed : m.disk.Named) (hp : p ∈ c.collect m folder)
    (hq : q ∈ c.collect m folder) (hsame : p.Same q) : p = q := by
  obtain ⟨root, names, hroot, -, rfl, -, -, hnames⟩ := exists_names_of_mem_collect hnamed hp
  obtain ⟨-, others, -, -, rfl, -, -, hothers⟩ := exists_names_of_mem_collect hnamed hq
  rw [Path.eq_of_same_under hroot.isAbsolute hnames hothers hsame]

/-- Folders with one identity have the same sources. -/
theorem collect_of_identity (hsame : m.identity folder = m.identity other) :
    c.collect m folder = c.collect m other := by
  unfold collect
  dsimp only
  rw [hsame]

/-- Spellings of one identity that are resolved have the same sources. -/
theorem collect_of_same (hnamed : m.disk.Named)
    (hsame : (m.identity folder).Same (m.identity other))
    (hfolder : m.Resolves (m.identity folder)) (hother : m.Resolves (m.identity other)) :
    c.collect m (m.identity folder) = c.collect m (m.identity other) := by
  by_cases hrooted : ∃ root, m.IsRoot (m.identity folder) root
  · obtain ⟨root, hroot⟩ := hrooted
    exact collect_of_identity (hroot.identity_eq_of_same hnamed hsame hfolder hother)
  · by_cases hbeside : ∃ root, m.IsRoot (m.identity other) root
    · obtain ⟨root, hroot⟩ := hbeside
      exact collect_of_identity (hroot.identity_eq_of_same hnamed hsame.symm hother hfolder).symm
    · rw [collect_of_rootless (not_exists.mp hrooted), collect_of_rootless (not_exists.mp hbeside)]

/-- Behind an identity that is resolved, sources are written as the paths of places. -/
theorem isPlaced_of_mem_collect_of_resolves (hnamed : m.disk.Named)
    (hresolves : m.Resolves (m.identity folder)) (hp : p ∈ c.collect m (m.identity folder)) :
    p.IsPlaced := by
  obtain ⟨root, names, hroot, -, rfl, -, -, hnames⟩ := exists_names_of_mem_collect hnamed hp
  have hplace := hnamed root _ hroot.directory
  rw [hroot.identity_eq hnamed hresolves, Path.under_path hplace hnames]
  exact ⟨root ++ names, rfl, List.forall_mem_append.mpr ⟨hplace, hnames⟩⟩

/-- A source that is listed without following links is kept as it is written. -/
theorem identity_of_mem_collect (hnamed : m.disk.Named) {extension : String}
    (hp : p ∈ (Collector.mk extension false).collect m folder) :
    p.isAbsolute ∧ m.identity p = p := by
  obtain ⟨root, names, hroot, hlisted, rfl, -, hne, hnames⟩ := exists_names_of_mem_collect hnamed hp
  obtain ⟨content, executable, hfile⟩ :=
    Disk.file_of_mem_filesBelow (List.append_nil root).symm hlisted
  have habsolute := Path.isAbsolute_under hroot.isAbsolute names
  refine ⟨habsolute, ?_⟩
  cases hshort : m.staysShort ((m.identity folder).under names) with
  | true =>
      rw [hroot.under_eq hnamed hnames hne hshort]
      exact Machine.identity_path (hnamed _ _ hfile) hfile nofun
  | false =>
      obtain ⟨e, hcanonical⟩ := Machine.canonical_of_unresolved fun _ _ => hshort
      exact Machine.identity_of_absolute hcanonical habsolute

end Collector

end ScriptAssembly
