import ScriptAssembly.Proofs.Collect.Listing

/-!
# Walks through links

A walk is run one name at a time: it keeps the directories that it is inside, the last one first,
with the names that it has not taken in each of them, and the files that it has found.  An opened
directory is closed after finitely many steps, by induction on what is left of the walk when it is
opened, so every run ends, and it ends with the files that are listed.

The names by which a walk has come to a directory lead there through all links.  So the directories
that a walk is inside are those that the names in front lead to, and a link that it enters leads to
none of them.
-/

namespace ScriptAssembly

namespace Disk

variable {d : Disk} {followLinks : Bool} {root : Path} {inside : List Place}
  {names here place file home : Place} {name : String}

/-! ## Runs -/

/-- A directory that a walk is inside. -/
structure Opened where
  /-- The names that led to it from the root. -/
  names : Place
  /-- Where it is. -/
  place : Place
  /-- The names in it that have not been taken. -/
  left : List String

/-- How far a walk has come. -/
structure Walk where
  /-- The directories that it is inside, the last one first. -/
  stack : List Opened
  /-- The files that it has found, by the names that led to them from the root. -/
  found : List Place

namespace Walk

/-- A walk that has opened a directory. -/
def enter (d : Disk) (root : Path) (w : Walk) (names place : Place) : Walk :=
  ⟨⟨names, place, d.listing (root.under names) place⟩ :: w.stack, w.found⟩

/-- A walk that has opened its root, which is the directory at the place. -/
def start (d : Disk) (root : Path) (place : Place) : Walk := enter d root ⟨[], []⟩ [] place

/-- The walk after one more name, or after its last directory has been closed. -/
def next (d : Disk) (followLinks : Bool) (root : Path) (w : Walk) : Walk :=
  match w.stack with
  | [] => w
  | ⟨_, _, []⟩ :: above => ⟨above, w.found⟩
  | ⟨names, here, name :: left⟩ :: above =>
    let rest : Walk := ⟨⟨names, here, left⟩ :: above, w.found⟩
    match d.walkEntry followLinks (here :: above.map Opened.place) (root.under names) here name with
    | .skipped => rest
    | .file => { rest with found := w.found ++ [names ++ [name]] }
    | .directory place => enter d root rest (names ++ [name]) place

/-- The walk after some steps. -/
def run (d : Disk) (followLinks : Bool) (root : Path) (steps : Nat) (w : Walk) : Walk :=
  (next d followLinks root)^[steps] w

theorem run_add (first second : Nat) (w : Walk) :
    run d followLinks root (first + second) w =
      run d followLinks root second (run d followLinks root first w) := by
  rw [run, Nat.add_comm, Function.iterate_add_apply]
  rfl

theorem run_one (w : Walk) : run d followLinks root 1 w = next d followLinks root w := rfl

/-- Two runs, one behind the other. -/
theorem exists_run_trans {w middle last : Walk}
    (hfirst : ∃ steps, run d followLinks root steps w = middle)
    (hsecond : ∃ steps, run d followLinks root steps middle = last) :
    ∃ steps, run d followLinks root steps w = last := by
  obtain ⟨first, hfirst⟩ := hfirst
  obtain ⟨second, hsecond⟩ := hsecond
  exact ⟨first + second, by rw [run_add, hfirst, hsecond]⟩

/-- An opened directory is closed at last, with what was found under its names. -/
theorem exists_run_close (above : List Opened) (found : List Place) (left : List String)
    (hinside : inside = here :: above.map Opened.place) :
    ∃ steps, run d followLinks root steps ⟨⟨names, here, left⟩ :: above, found⟩ =
      ⟨above, found ++ left.flatMap (d.filesUnder followLinks root inside names here)⟩ := by
  induction inside, names, here using filesBelow.induct d followLinks root
    generalizing above found left with
  | case1 inside names here ih =>
      -- What is opened below is closed by `ih`, and then the names that are left are taken.
      induction left generalizing found with
      | nil => exact ⟨1, by simp [run_one, next]⟩
      | cons name left hleft =>
          subst hinside
          have hstep := @run_one d followLinks root ⟨⟨names, here, name :: left⟩ :: above, found⟩
          unfold next at hstep
          rw [List.flatMap_cons, ← List.append_assoc, filesUnder]
          cases hentry : d.walkEntry followLinks (here :: above.map Opened.place)
              (root.under names) here name with
          | skipped =>
              simp only [hentry] at hstep ⊢
              exact exists_run_trans ⟨1, hstep⟩ (by simpa using hleft found)
          | file =>
              simp only [hentry] at hstep ⊢
              exact exists_run_trans ⟨1, hstep⟩ (hleft (found ++ [names ++ [name]]))
          | directory place =>
              simp only [hentry] at hstep ⊢
              refine exists_run_trans ⟨1, hstep⟩ (exists_run_trans (ih name place hentry _ found
                (d.listing (root.under (names ++ [name])) place) rfl) ?_)
              rw [filesBelow_eq]
              exact hleft _

/-- Every run ends, from wherever it is started. -/
theorem exists_run_end (root : Path) (w : Walk) :
    ∃ steps, (run d followLinks root steps w).stack = [] := by
  obtain ⟨stack, found⟩ := w
  induction stack generalizing found with
  | nil => exact ⟨0, rfl⟩
  | cons opened above ih =>
      obtain ⟨names, here, left⟩ := opened
      obtain ⟨first, hclosed⟩ :=
        @exists_run_close d followLinks root _ names here above found left rfl
      obtain ⟨second, hended⟩ := ih _
      exact ⟨first + second, by rw [run_add, hclosed, hended]⟩

/-- A run ends with the files that are listed. -/
theorem exists_run_start (root : Path) (place : Place) : ∃ steps,
    run d followLinks root steps (start d root place) =
      ⟨[], d.filesBelow followLinks root [place] [] place⟩ := by
  rw [filesBelow_eq]
  exact exists_run_close [] [] (d.listing (root.under []) place) rfl

end Walk

/-! ## Ways -/

/-- The absolute path leads, through all links, to a directory. -/
def Enters (d : Disk) (p : Path) (place : Place) : Prop :=
  d.locate [] true p = .ok (.found place .directory)

theorem Enters.unique {p : Path} {other : Place} (henters : d.Enters p place)
    (hother : d.Enters p other) : place = other := by
  rw [Enters, henters] at hother
  cases hother
  rfl

/-- The name is that of a link, in the directory that the names lead to from the root, and the link
leads to a directory. -/
def LinksTo (d : Disk) (root : Path) (names : Place) (name : String) (target : Place) : Prop :=
  (∃ here path, d.Enters (root.under names) here ∧
    d.at? (here ++ [name]) = some (.link path)) ∧ d.Enters (root.under (names ++ [name])) target

/-- On the way from the root to the file no link leads to a directory that is on the way from the
root to the link. -/
def Unlooped (d : Disk) (root : Path) (file : Place) : Prop :=
  ∀ names name target, names ++ [name] <+: file → names ++ [name] ≠ file →
    d.LinksTo root names name target → ∀ above, above <+: names → ¬d.Enters (root.under above) target

/-- The way of a walk from its root: the directories that it is inside, the names that it has come
by, and where it is. -/
inductive Route (d : Disk) (followLinks : Bool) (root : Path) (home : Place) :
    List Place → Place → Place → Prop
  | start : Route d followLinks root home [home] [] home
  | enter {inside : List Place} {names here place : Place} {name : String}
      (hroute : Route d followLinks root home inside names here)
      (hentry : d.walkEntry followLinks inside (root.under names) here name = .directory place) :
      Route d followLinks root home (place :: inside) (names ++ [name]) place

/-- What a walk lists is the name of a file in a directory that it has come to. -/
theorem Route.exists_file_of_mem_filesBelow
    (hroute : d.Route followLinks root home inside names here)
    (hfile : file ∈ d.filesBelow followLinks root inside names here) :
    ∃ inside front here name, d.Route followLinks root home inside front here ∧
      d.walkEntry followLinks inside (root.under front) here name = .file ∧
      file = front ++ [name] := by
  induction inside, names, here using filesBelow.induct d followLinks root with
  | case1 inside names here ih =>
      obtain ⟨name, ⟨hentry, rfl⟩ | ⟨place, hentry, hbelow⟩⟩ := mem_filesBelow_cases hfile
      · exact ⟨inside, names, here, name, hroute, hentry, rfl⟩
      · exact ih name place hentry (hroute.enter hentry) hbelow

/-- The path by which a route has come leads where it is. -/
theorem Route.enters (hnamed : d.Named) (hroot : root.isAbsolute) (hhome : d.Enters root home)
    (hroute : d.Route followLinks root home inside names here) :
    d.Enters (root.under names) here := by
  induction hroute with
  | start => exact hhome
  | enter hroute hentry ih =>
      rw [Path.under_concat]
      have habsolute := Path.isAbsolute_under hroot
      have hname := name_of_walkEntry hnamed (hentry.trans_ne (by simp))
      rcases walkEntry_eq_directory hentry with ⟨rfl, hchild⟩ | ⟨-, -, hlookup, -⟩
      · refine locate_child (habsolute _) hname ih fun links => ?_
        refine .directory hname.named ?_ ?_
        · rw [String.ofList_toList]
          exact hchild
        · rw [String.ofList_toList]
          exact .arrived
      · rw [Enters, d.locate_of_isAbsolute (Path.isAbsolute_join_of_isAbsolute (habsolute _) _)]
        exact locate_of_lookup hlookup

theorem Route.mem_inside (hroute : d.Route followLinks root home inside names here) :
    here ∈ inside := by
  cases hroute <;> exact List.mem_cons_self

/-- On the way a route has passed through what its first names lead to. -/
theorem Route.front {above : Place} (hroute : d.Route followLinks root home inside names here)
    (habove : above <+: names) :
    ∃ before place, d.Route followLinks root home before above place ∧ before <:+ inside := by
  induction hroute with
  | start =>
      obtain rfl := List.prefix_nil.mp habove
      exact ⟨_, _, .start, List.suffix_refl _⟩
  | enter hroute hentry ih =>
      rcases List.prefix_concat_iff.mp habove with rfl | habove
      · exact ⟨_, _, hroute.enter hentry, List.suffix_refl _⟩
      · obtain ⟨before, place, hfront, hsuffix⟩ := ih habove
        exact ⟨before, place, hfront, hsuffix.trans (List.suffix_cons _ _)⟩

/-- A route goes through no link to a directory that it is inside. -/
theorem Route.unlooped (hnamed : d.Named) (hroot : root.isAbsolute) (hhome : d.Enters root home)
    (hroute : d.Route followLinks root home inside names here) (name : String) :
    d.Unlooped root (names ++ [name]) := by
  intro front link target hfront hne ⟨⟨directory, path, henters, hlink⟩, htarget⟩ above habove hloop
  have hpassed : front ++ [link] <+: names := (List.prefix_concat_iff.mp hfront).resolve_left hne
  obtain ⟨before, place, hcome, -⟩ := hroute.front hpassed
  -- The last step of the route to the directory behind the link is the one that entered it.
  generalize hnames : front ++ [link] = passed at hcome htarget
  cases hcome with
  | start => simp at hnames
  | enter hbefore hentry =>
      obtain ⟨rfl, hname⟩ := List.append_inj' hnames rfl
      cases hname
      obtain rfl := (hbefore.enters hnamed hroot hhome).unique henters
      rcases walkEntry_eq_directory hentry with ⟨rfl, hchild⟩ | ⟨-, -, -, hnew, -⟩
      · rw [hlink] at hchild
        cases hchild
      · obtain rfl := ((hbefore.enter hentry).enters hnamed hroot hhome).unique htarget
        obtain ⟨earlier, known, hknown, hearlier⟩ := hbefore.front habove
        obtain rfl := (hknown.enters hnamed hroot hhome).unique hloop
        have hmem := hearlier.subset hknown.mem_inside
        exact absurd hmem (by simpa using hnew)

end Disk

theorem Machine.IsRoot.enters {m : Machine} {folder : Path} {home : Place}
    (hroot : m.IsRoot folder home) : m.disk.Enters (m.identity folder) home := by
  rw [Disk.Enters, m.disk.locate_of_isAbsolute hroot.isAbsolute [] m.directory]
  exact locate_of_find hroot

namespace Collector

variable {m : Machine}

/-- Collecting through links comes to an end, whatever the links lead to: a walk ends from wherever
it is started, and from the root of the folder it ends with the files that are listed.  On the way
to a file that is listed, behind the folder's identity, no link leads to a directory that is on the
way from the root to the link. -/
theorem collect_through_links (hnamed : m.disk.Named) (extension : String) (folder : Path) :
    let c : Collector := ⟨extension, true⟩
    let root := m.identity folder
    ((∀ w, ∃ steps, (Disk.Walk.run m.disk true root steps w).stack = []) ∧
      (∀ home, m.IsRoot folder home → ∃ steps found,
        Disk.Walk.run m.disk true root steps (.start m.disk root home) = ⟨[], found⟩ ∧
        c.collect m folder = (found.map root.under).filter c.admits) ∧
      ((¬∃ home, m.IsRoot folder home) → c.collect m folder = [])) ∧
    ∀ p ∈ c.collect m folder, ∃ home file : Place, m.IsRoot folder home ∧ p = root.under file ∧
      (∀ names, names <+: file → names ≠ file → ∃ place, m.disk.Enters (root.under names) place) ∧
      m.disk.Unlooped root file := by
  intro c root
  refine ⟨⟨Disk.Walk.exists_run_end root, ?_, ?_⟩, ?_⟩
  · intro home hroot
    obtain ⟨steps, hrun⟩ := @Disk.Walk.exists_run_start m.disk true root home
    exact ⟨steps, _, hrun, collect_of_isRoot hroot⟩
  · exact fun hrootless => collect_of_rootless (not_exists.mp hrootless)
  · intro p hp
    obtain ⟨home, file, hroot, hfile, rfl, -⟩ := exists_names_of_mem_collect hnamed hp
    have hhome := hroot.enters
    obtain ⟨inside, front, here, name, hroute, -, rfl⟩ :=
      Disk.Route.start.exists_file_of_mem_filesBelow hfile
    refine ⟨home, front ++ [name], hroot, rfl, ?_,
      hroute.unlooped hnamed hroot.isAbsolute hhome name⟩
    intro names hfront hne
    have hpassed := (List.prefix_concat_iff.mp hfront).resolve_left hne
    obtain ⟨before, place, hcome, -⟩ := hroute.front hpassed
    exact ⟨place, hcome.enters hnamed hroot.isAbsolute hhome⟩

/-- A source beside links to its directory, to the directory above, to itself and to nothing. -/
def tangle : Machine where
  disk := ⟨[(["r"], .directory), (["r", "a"], .directory), (["r", "a", "x.cs"], .file .empty false),
    (["r", "a", "self"], .link ⟨"."⟩), (["r", "a", "spin"], .link ⟨"spin"⟩),
    (["r", "a", "up"], .link ⟨".."⟩), (["r", "a", "gone"], .link ⟨"nothing"⟩)]⟩
  directory := ["r"]
  environment := []

theorem named_tangle : tangle.disk.Named := Disk.named_of_entries (by decide)

theorem find_tangle : tangle.find ⟨"/r/a"⟩ = .ok (.found ["r", "a"] .directory) := by
  refine Disk.lookup_of_leads ["".toList, "r".toList, "a".toList] (by decide) rfl ?_
  exact .silent (.inl rfl) (.directory (by decide) rfl (.directory (by decide) rfl .arrived))

theorem identity_tangle : tangle.identity ⟨"/r/a"⟩ = ⟨"/r/a"⟩ :=
  Machine.identity_of_find (Disk.short_of_entries (by decide)) find_tangle

theorem isRoot_tangle : tangle.IsRoot ⟨"/r/a"⟩ ["r", "a"] := by
  rw [Machine.IsRoot, identity_tangle, find_tangle]

theorem walkEntry_tangle :
    tangle.disk.walkEntry true [["r", "a"]] (Path.under ⟨"/r/a"⟩ []) ["r", "a"] "up" =
      .directory ["r"] := by
  have hlookup : tangle.disk.lookup ["r", "a"] true ((Path.under ⟨"/r/a"⟩ []).join ⟨"up"⟩) =
      .ok (.found ["r"] .directory) := by
    refine Disk.lookup_of_leads ["".toList, "r".toList, "a".toList, "up".toList]
      (by decide) rfl ?_
    exact .silent (.inl rfl) (.directory (by decide) rfl (.directory (by decide) rfl
      (.linked (by decide) rfl rfl (.above .arrived))))
  have hlink : tangle.disk.at? (["r", "a"] ++ ["up"]) = some (.link ⟨".."⟩) := rfl
  rw [Disk.walkEntry, hlink]
  simp only [hlookup]
  rfl

/-- The directory of the source is entered a second time, through the link above it. -/
theorem mem_filesBelow_tangle : ["up", "a", "x.cs"] ∈
    tangle.disk.filesBelow true ⟨"/r/a"⟩ [["r", "a"]] [] ["r", "a"] := by
  have hsource : ["up", "a", "x.cs"] ∈ tangle.disk.filesUnder true ⟨"/r/a"⟩
      [["r", "a"], ["r"], ["r", "a"]] ["up", "a"] ["r", "a"] "x.cs" :=
    List.mem_singleton_self _
  have hagain : ["up", "a", "x.cs"] ∈ tangle.disk.filesUnder true ⟨"/r/a"⟩
      [["r"], ["r", "a"]] ["up"] ["r"] "a" :=
    Disk.mem_filesBelow_iff_filesUnder.mpr ⟨by decide, "x.cs", hsource⟩
  refine Disk.mem_filesBelow_iff_filesUnder.mpr ⟨by decide, "up", ?_⟩
  rw [Disk.filesUnder, walkEntry_tangle]
  exact Disk.mem_filesBelow_iff_filesUnder.mpr ⟨by decide, "a", hagain⟩

theorem collect_through_links_tangle :
    let root := tangle.identity ⟨"/r/a"⟩
    tangle.disk.Named ∧
    (∃ steps,
      (Disk.Walk.run tangle.disk true root steps (.start tangle.disk root ["r", "a"])).stack = []) ∧
    ⟨"/r/a/up/a/x.cs"⟩ ∈ (Collector.mk "cs" true).collect tangle ⟨"/r/a"⟩ ∧
    ∃ home file : Place, tangle.IsRoot ⟨"/r/a"⟩ home ∧ ⟨"/r/a/up/a/x.cs"⟩ = root.under file ∧
      tangle.disk.Unlooped root file := by
  intro root
  obtain ⟨⟨hends, -⟩, hways⟩ := collect_through_links named_tangle "cs" ⟨"/r/a"⟩
  have hlisted : ⟨"/r/a/up/a/x.cs"⟩ ∈ (Collector.mk "cs" true).collect tangle ⟨"/r/a"⟩ := by
    rw [collect_of_isRoot isRoot_tangle, identity_tangle]
    exact List.mem_filter.mpr ⟨List.mem_map.mpr ⟨_, mem_filesBelow_tangle, by decide⟩, by decide⟩
  obtain ⟨home, file, hroot, hpath, -, hway⟩ := hways _ hlisted
  exact ⟨named_tangle, hends _, hlisted, home, file, hroot, hpath, hway⟩

end Collector

end ScriptAssembly
