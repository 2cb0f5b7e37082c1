import ScriptAssembly.Machine

/-!
# Collecting sources

A collector lists the files with one extension below a folder, each directory's entries in the order
of their names.  Symbolic links are passed over unless the collector follows them; then a link to a
directory that the walk is already inside is passed over, which is why every walk ends: each link
that is entered adds a directory to those the walk is inside, and between two links the walk only
goes deeper.  Links are followed and directories opened by the path that the walk has come, so a
path that is too long, or that leads through too many links, ends the walk there.
-/

namespace ScriptAssembly

/-- The path of names, one in the other, behind a root. -/
def Path.under (root : Path) (names : List String) : Path :=
  names.foldl (fun p name => p.join ⟨name⟩) root

namespace Disk

theorem noted?_eq_some_of_at? {d : Disk} {place : Place} {entry : Entry}
    (hentry : d.at? place = some entry) : d.noted? place = some entry := by
  unfold at? at hentry
  split at hentry
  · exact hentry
  · contradiction

theorem mem_of_noted? {d : Disk} {place : Place} {entry : Entry} (hplace : place ≠ [])
    (hentry : d.noted? place = some entry) : (place, entry) ∈ d.entries := by
  cases place with
  | nil => exact absurd rfl hplace
  | cons name names =>
    obtain ⟨before, after, hsplit, -⟩ := List.lookup_eq_some_iff.mp hentry
    exact hsplit ▸ List.mem_append_right before List.mem_cons_self

theorem length_le_foldl_max (lengths : List Nat) (start : Nat) :
    start ≤ lengths.foldl max start ∧ ∀ n ∈ lengths, n ≤ lengths.foldl max start := by
  induction lengths generalizing start with
  | nil => simp
  | cons n rest ih =>
    simp only [List.foldl_cons, List.mem_cons, forall_eq_or_imp]
    have hrest := ih (max start n)
    exact ⟨by omega, by omega, hrest.2⟩

theorem length_le_depth {d : Disk} {place : Place} {entry : Entry}
    (hentry : d.at? place = some entry) : place.length ≤ d.depth := by
  by_cases hplace : place = []
  · simp [hplace]
  · have hmem := mem_of_noted? hplace (noted?_eq_some_of_at? hentry)
    exact (length_le_foldl_max _ 0).2 _ (List.mem_map.mpr ⟨_, hmem, rfl⟩)

theorem at?_eq_directory {d : Disk} {place : Place} (hplace : d.isDirectoryAt place = true) :
    d.at? place = some .directory := by
  unfold isDirectoryAt at hplace
  cases hentry : d.at? place with
  | none => simp [hentry] at hplace
  | some entry => cases entry <;> simp_all [Entry.isDirectory]

theorem mem_directories {d : Disk} {place : Place} (hplace : d.isDirectoryAt place = true) :
    place ∈ d.directories := by
  unfold directories
  by_cases hroot : place = []
  · simp [hroot]
  · have hmem := mem_of_noted? hroot (noted?_eq_some_of_at? (at?_eq_directory hplace))
    exact List.mem_cons_of_mem _ (List.mem_map.mpr ⟨_, List.mem_filter.mpr ⟨hmem, rfl⟩, rfl⟩)

/-- The directories that a walk is not inside. -/
def outside (d : Disk) (inside : List Place) : List Place :=
  d.directories.filter fun place => !inside.contains place

theorem outside_cons (d : Disk) (inside : List Place) (place : Place) :
    d.outside (place :: inside) =
      (d.outside inside).filter fun other => !decide (other = place) := by
  unfold outside
  rw [List.filter_filter]
  exact List.filter_congr fun other _ => by simp

theorem outside_cons_length_le (d : Disk) (inside : List Place) (place : Place) :
    (d.outside (place :: inside)).length ≤ (d.outside inside).length := by
  rw [outside_cons]
  exact List.length_filter_le _ _

theorem outside_cons_length_lt {d : Disk} {inside : List Place} {place : Place}
    (hplace : d.isDirectoryAt place = true) (hnew : inside.contains place = false) :
    (d.outside (place :: inside)).length < (d.outside inside).length := by
  have hmem : place ∈ d.outside inside :=
    List.mem_filter.mpr ⟨mem_directories hplace, by simpa using hnew⟩
  rw [outside_cons]
  exact List.length_filter_lt_length_iff_exists.mpr ⟨place, hmem, by simp⟩

/-- What a walk makes of a name in a directory. -/
inductive WalkEntry where
  /-- Neither listed nor entered. -/
  | skipped
  /-- A file, listed. -/
  | file
  /-- A directory, entered. -/
  | directory (place : Place)
deriving DecidableEq

/-- The names that the directory `here` shows when it is opened by a path; too long a path opens
nothing. -/
def listing (d : Disk) (shown : Path) (here : Place) : List String :=
  if pathLimit < shown.text.utf8ByteSize then [] else d.names here

/-- What a walk makes of a name in the directory `here`.  `shown` is the path by which the walk has
come to `here`, and a link is followed by the path of its name behind this one. -/
def walkEntry (d : Disk) (followLinks : Bool) (inside : List Place) (shown : Path) (here : Place)
    (name : String) : WalkEntry :=
  match d.at? (here ++ [name]) with
  | none => .skipped
  | some (.file ..) => .file
  | some .directory => .directory (here ++ [name])
  | some (.link _) =>
    if followLinks then
      match d.lookup here true (shown.join ⟨name⟩) with
      | .ok (.found _ (.file ..)) => .file
      | .ok (.found target .directory) =>
        if inside.contains target then .skipped
        else if d.isDirectoryAt target then .directory target
        else .skipped
      | _ => .skipped
    else .skipped

theorem walkEntry_eq_directory {d : Disk} {followLinks : Bool} {inside : List Place}
    {shown : Path} {here place : Place} {name : String}
    (hentry : d.walkEntry followLinks inside shown here name = .directory place) :
    place = here ++ [name] ∧ d.at? place = some .directory ∨
      followLinks ∧ (∃ target, d.at? (here ++ [name]) = some (.link target)) ∧
        d.lookup here true (shown.join ⟨name⟩) = .ok (.found place .directory) ∧
        inside.contains place = false ∧ d.isDirectoryAt place = true := by
  unfold walkEntry at hentry
  split at hentry
  · cases hentry
  · cases hentry
  · rename_i hchild
    cases hentry
    exact .inl ⟨rfl, hchild⟩
  · rename_i target hchild
    split at hentry
    · rename_i hfollow
      split at hentry
      · cases hentry
      · rename_i hlookup
        split at hentry
        · cases hentry
        · rename_i hnew
          split at hentry
          · rename_i hdirectory
            cases hentry
            exact .inr ⟨hfollow, ⟨target, hchild⟩, hlookup, by simpa using hnew, hdirectory⟩
          · cases hentry
      · cases hentry
    · cases hentry

/-- What is left of a walk inside some directories: those it is not inside, and the names that a
place can have below the last one. -/
def walkLeft (d : Disk) (inside : List Place) (here : Place) : Nat × Nat :=
  ((d.outside inside).length, d.depth - here.length)

/-- Less is left in a directory that is entered. -/
theorem walkLeft_lt {d : Disk} {followLinks : Bool} {inside : List Place} {shown : Path}
    {here place : Place} {name : String}
    (hentry : d.walkEntry followLinks inside shown here name = .directory place) :
    Prod.Lex (· < ·) (· < ·) (d.walkLeft (place :: inside) place) (d.walkLeft inside here) := by
  unfold walkLeft
  rcases walkEntry_eq_directory hentry with ⟨rfl, hchild⟩ | ⟨-, -, -, hnew, hdirectory⟩
  · have hdepth := length_le_depth hchild
    simp only [List.length_append, List.length_cons, List.length_nil] at hdepth
    rcases Nat.lt_or_eq_of_le (outside_cons_length_le d inside (here ++ [name])) with hlt | heq
    · exact Prod.Lex.left _ _ hlt
    · rw [heq]
      refine Prod.Lex.right _ ?_
      simp only [List.length_append, List.length_cons, List.length_nil]
      omega
  · exact Prod.Lex.left _ _ (outside_cons_length_lt hdirectory hnew)

/-- The files below the directory `here`, by the names that lead to them from the root of the walk
through the links followed.  `names` led from the root to `here`, and `inside` holds the directories
the walk is inside. -/
def filesBelow (d : Disk) (followLinks : Bool) (root : Path) (inside : List Place)
    (names here : Place) : List Place :=
  (d.listing (root.under names) here).flatMap fun name =>
    match _ : d.walkEntry followLinks inside (root.under names) here name with
    | .skipped => []
    | .file => [names ++ [name]]
    | .directory place => filesBelow d followLinks root (place :: inside) (names ++ [name]) place
termination_by d.walkLeft inside here
decreasing_by
  rename_i hentry
  exact walkLeft_lt hentry

end Disk

/-- Which files of a folder are sources. -/
structure Collector where
  /-- The extension of a source, without a dot. -/
  extension : String
  /-- Symbolic links are followed. -/
  followLinks : Bool := false
deriving DecidableEq, Repr

namespace Collector

/-- The extension of sources where none is chosen. -/
def defaultExtension : String := "cs"

/-- The collector of files with an extension; dots in front of it are dropped. -/
def ofExtension (extension : String) : Collector :=
  ⟨.ofList (extension.toList.dropWhile (· = '.')), false⟩

/-- The path is that of a source. -/
def admits (c : Collector) (p : Path) : Bool := p.extension? = some c.extension

/-- The sources below a folder, behind the folder's identity; a path that leads to no directory has
none. -/
def collect (c : Collector) (m : Machine) (folder : Path) : List Path :=
  let root := m.identity folder
  match m.entry? root with
  | some (place, .directory) =>
    ((m.disk.filesBelow c.followLinks root [place] [] place).map root.under).filter c.admits
  | _ => []

end Collector

end ScriptAssembly
