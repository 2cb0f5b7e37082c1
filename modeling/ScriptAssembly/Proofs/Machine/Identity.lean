import ScriptAssembly.Proofs.Machine.Files
import ScriptAssembly.Proofs.Machine.Shape
import ScriptAssembly.Proofs.Path.Components

/-!
# Identities of paths

The identity of a path is the path of the place that it leads to, and where it leads to nothing the
absolute path.  On a disk whose names are names of entries the path of a place leads to that place,
and a relative path leads from the root, behind the path of the working directory, where it leads
from the working directory.  So the identity of an identity is the same path, and two identities
that lead to one place are the same.
-/

namespace ScriptAssembly

theorem Place.isAbsolute_path (place : Place) : place.path.isAbsolute :=
  Path.isAbsolute_iff.mpr ⟨Text.join '/' (place.map String.toList), by simp [Place.path]⟩

theorem Machine.isAbsolute_of_canonical {m : Machine} {p known : Path}
    (hcanonical : m.canonical p = .ok known) : known.isAbsolute := by
  obtain ⟨-, place, -, -, rfl⟩ := canonical_eq_ok_iff.mp hcanonical
  exact place.isAbsolute_path

/-- The root that a name stands for is absolute. -/
theorem Machine.isAbsolute_of_namedRoot {m : Machine} {name : String} {root : Path}
    (hroot : m.namedRoot name = .ok root) : root.isAbsolute := by
  have hworking : ∀ directory, m.workingDirectory = .ok directory → directory.isAbsolute := by
    intro directory hdirectory
    unfold workingDirectory at hdirectory
    split at hdirectory
    · cases hdirectory
      exact m.directory.isAbsolute_path
    · cases hdirectory
  simp only [namedRoot] at hroot
  split at hroot
  · exact hworking root hroot
  · cases hcanonical : m.canonical ⟨name⟩ with
    | ok known =>
        rw [hcanonical] at hroot
        cases hroot
        exact isAbsolute_of_canonical hcanonical
    | error e =>
        rw [hcanonical] at hroot
        cases hdirectory : m.workingDirectory with
        | error e =>
            rw [hdirectory] at hroot
            cases hroot
        | ok directory =>
            rw [hdirectory] at hroot
            cases hroot
            exact Path.isAbsolute_join_of_isAbsolute (hworking directory hdirectory) _

/-- A name that an entry of a disk can have. -/
structure IsEntryName (name : String) : Prop where
  /-- As the piece of a path it names an entry. -/
  named : NamesEntry name.toList
  /-- It is one piece. -/
  slashless : '/' ∉ name.toList
  /-- No null character is in it. -/
  clean : '\x00' ∉ name.toList

instance (name : String) : Decidable (IsEntryName name) :=
  decidable_of_iff (NamesEntry name.toList ∧ '/' ∉ name.toList ∧ '\x00' ∉ name.toList)
    ⟨fun ⟨hnamed, hslashless, hclean⟩ => ⟨hnamed, hslashless, hclean⟩,
      fun ⟨hnamed, hslashless, hclean⟩ => ⟨hnamed, hslashless, hclean⟩⟩

theorem IsEntryName.isName {name : String} (hname : IsEntryName name) : Path.IsName name where
  slashless := hname.slashless
  spoken := by
    have hspoken := hname.named.spoken
    unfold Path.isSilent Path.component?
    rw [if_neg hspoken]
    split <;> rfl

namespace Place

variable {place : Place}

/-- The names of a place, each behind a slash. -/
def chars (place : Place) : List Char := place.flatMap fun name => '/' :: name.toList

theorem toList_text_path (hroot : place ≠ []) : place.path.text.toList = place.chars := by
  rw [path, String.toList_ofList]
  induction place with
  | nil => exact absurd rfl hroot
  | cons name names ih =>
      cases names with
      | nil => simp [chars, Text.join]
      | cons second others =>
          rw [List.map_cons, Text.join_cons_of_ne_nil _ (by simp), ih (by simp)]
          simp [chars]

/-- The characters of a relative path behind the path of a place. -/
theorem toList_text_join (hplace : ∀ name ∈ place, IsEntryName name) {p : Path}
    (hp : p.isAbsolute = false) :
    (place.path.join p).text.toList = place.chars ++ '/' :: p.text.toList := by
  have hfront : place.path.front.toList = place.chars ++ ['/'] := by
    by_cases hroot : place = []
    · subst hroot
      rfl
    · have hlast : place.path.text.toList.getLast? ≠ some '/' := by
        rw [toList_text_path hroot, ← List.dropLast_concat_getLast hroot, chars,
          List.flatMap_append, List.flatMap_singleton, List.append_cons]
        exact Path.getLast?_append_name
          (hplace _ (List.getLast_mem hroot)).isName _
      have hne : place.path.text.toList ≠ [] := by
        rw [path, String.toList_ofList]
        exact List.cons_ne_nil _ _
      rw [Path.front, if_neg (not_or.mpr ⟨hne, hlast⟩), String.toList_append,
        toList_text_path hroot]
      rfl
  rw [Path.join_of_relative _ hp, String.toList_append, hfront]
  simp

theorem split_append_chars (hplace : ∀ name ∈ place, IsEntryName name) (front : List Char) :
    Text.split '/' (front ++ place.chars) = Text.split '/' front ++ place.map String.toList := by
  induction place generalizing front with
  | nil => simp [chars]
  | cons name names ih =>
      have hname := hplace name List.mem_cons_self
      have hnames := fun other hother => hplace other (List.mem_cons_of_mem name hother)
      have hchars :
          front ++ chars (name :: names) = (front ++ '/' :: name.toList) ++ chars names := by
        simp [chars]
      rw [hchars, ih hnames, Text.split_append_cons, Text.split_of_not_mem hname.slashless]
      simp

/-- The pieces of the path of a place are its names, apart from silent ones. -/
theorem split_path (hplace : ∀ name ∈ place, IsEntryName name) :
    Text.split '/' place.path.text.toList =
      [] :: if place = [] then [[]] else place.map String.toList := by
  split
  · rename_i hroot
    subst hroot
    rfl
  · rename_i hroot
    rw [toList_text_path hroot]
    exact split_append_chars hplace []

/-- Behind the path of a place a relative path goes on with its own pieces. -/
theorem split_join (hplace : ∀ name ∈ place, IsEntryName name) {p : Path}
    (hp : p.isAbsolute = false) : Text.split '/' (place.path.join p).text.toList =
      [] :: (place.map String.toList ++ Text.split '/' p.text.toList) := by
  rw [toList_text_join hplace hp, Text.split_append_cons]
  exact congrArg (· ++ Text.split '/' p.text.toList) (split_append_chars hplace [])

theorem clean_chars (hplace : ∀ name ∈ place, IsEntryName name) : '\x00' ∉ place.chars := by
  intro hmem
  obtain ⟨name, hname, hin⟩ := List.mem_flatMap.mp hmem
  rcases List.mem_cons.mp hin with hslash | hin
  · cases hslash
  · exact (hplace name hname).clean hin

theorem clean_path (hplace : ∀ name ∈ place, IsEntryName name) :
    '\x00' ∉ place.path.text.toList := by
  by_cases hroot : place = []
  · subst hroot
    decide
  · rw [toList_text_path hroot]
    exact clean_chars hplace

end Place

namespace Disk

variable {d : Disk} {here place names : Place} {entry : Entry} {through : Bool} {links : Nat}

/-- Names that lead to a directory are passed. -/
theorem follow_names (hnames : ∀ name ∈ names, IsEntryName name)
    (hplace : d.at? (here ++ names) = some .directory) (rest : List (List Char)) :
    d.follow through links here (names.map String.toList ++ rest) =
      d.follow through links (here ++ names) rest := by
  induction names generalizing here with
  | nil => simp
  | cons name names ih =>
      have hchild : d.at? (here ++ [name]) = some .directory := by
        cases names with
        | nil => exact hplace
        | cons second others =>
            exact at?_eq_directory_of_below ⟨second :: others, by simp⟩ (by simp) hplace
      rw [List.map_cons, List.cons_append,
        follow_of_namesEntry (hnames name List.mem_cons_self).named, String.ofList_toList, hchild]
      dsimp only
      rw [List.append_cons here name names] at hplace ⊢
      exact ih (fun other hother => hnames other (List.mem_cons_of_mem name hother)) hplace

theorem text_path_concat (hplace : place ≠ []) (name : String) :
    (Place.path (place ++ [name])).text = place.path.text ++ "/" ++ name := by
  rw [← String.toList_inj, Place.toList_text_path (by simp), String.toList_append,
    String.toList_append, Place.toList_text_path hplace]
  simp [Place.chars]

/-- A place in a directory has a longer path than the directory, unless that is the root. -/
theorem size_path_lt (hplace : place ≠ []) (name : String) :
    place.path.text.utf8ByteSize < (Place.path (place ++ [name])).text.utf8ByteSize := by
  have hslash : "/".utf8ByteSize = 1 := rfl
  rw [text_path_concat hplace, String.utf8ByteSize_append, String.utf8ByteSize_append]
  omega

/-- No place below another one has a shorter path. -/
theorem size_path_le_append (place names : Place) :
    place.path.text.utf8ByteSize ≤ (Place.path (place ++ names)).text.utf8ByteSize := by
  induction names using List.reverseRecOn with
  | nil => rw [List.append_nil]
  | append_singleton names name ih =>
      rw [← List.append_assoc]
      by_cases hroot : place ++ names = []
      · obtain ⟨rfl, rfl⟩ := List.append_eq_nil_iff.mp hroot
        have hslash : (Place.path []).text.utf8ByteSize = 1 := rfl
        have hwritten := Path.text_ne_of_isAbsolute (Place.isAbsolute_path [name])
        rw [hslash]
        exact Nat.one_le_iff_ne_zero.mpr (mt String.utf8ByteSize_eq_zero_iff.mp hwritten)
      · exact ih.trans (Nat.le_of_lt (size_path_lt hroot name))

/-- The way along the names of an entry stays short if the path of the entry leaves room for a
slash. -/
theorem staysShort_along (hnames : ∀ name ∈ names, IsEntryName name)
    (hentry : d.at? (here ++ names) = some entry) (hlink : ∀ target, entry ≠ .link target)
    (hsize : (Place.path (here ++ names)).text.utf8ByteSize < pathLimit) :
    d.staysShort links here (names.map String.toList) := by
  induction names generalizing here with
  | nil => rw [List.map_nil, staysShort]
  | cons name names ih =>
      have hname := (hnames name List.mem_cons_self).named
      have hothers := fun other hother => hnames other (List.mem_cons_of_mem name hother)
      rw [List.append_cons] at hentry hsize
      have hfront := size_path_le_append (here ++ [name]) names
      rw [List.map_cons, staysShort_cons hname.spoken hname.notAbove, String.ofList_toList,
        if_neg (by omega)]
      by_cases hlast : names = []
      · subst hlast
        rw [List.append_nil] at hentry
        rw [hentry]
        cases entry with
        | directory => simp [asksDirectory, staysShort]
        | file content executable => rfl
        | link target => exact absurd rfl (hlink target)
      · have hpassed : d.at? (here ++ [name]) = some .directory :=
          at?_eq_directory_of_below (List.prefix_append _ names) (by simpa using hlast) hentry
        rw [hpassed]
        dsimp only
        rw [if_neg fun hasks => by omega, ih hothers hentry hsize]

/-- A way that stays short passes names whose path is not too long, and stays short behind them. -/
theorem staysShort_names (hnames : ∀ name ∈ names, IsEntryName name)
    (hplace : d.at? (here ++ names) = some .directory) {rest : List (List Char)}
    (hshort : d.staysShort links here (names.map String.toList ++ rest)) :
    (names ≠ [] → (Place.path (here ++ names)).text.utf8ByteSize ≤ pathLimit) ∧
      d.staysShort links (here ++ names) rest := by
  induction names generalizing here with
  | nil => exact ⟨fun hne => absurd rfl hne, by simpa using hshort⟩
  | cons name names ih =>
      have hname := (hnames name List.mem_cons_self).named
      have hothers := fun other hother => hnames other (List.mem_cons_of_mem name hother)
      have hchild : d.at? (here ++ [name]) = some .directory := by
        cases names with
        | nil => exact hplace
        | cons second others =>
            exact at?_eq_directory_of_below ⟨second :: others, by simp⟩ (by simp) hplace
      rw [List.map_cons, List.cons_append, staysShort_cons hname.spoken hname.notAbove,
        String.ofList_toList, hchild] at hshort
      rw [List.append_cons] at hplace ⊢
      split at hshort
      · cases hshort
      · rename_i hbounded
        dsimp only at hshort
        split at hshort
        · cases hshort
        · obtain ⟨hlonger, hbehind⟩ := ih hothers hplace hshort
          refine ⟨fun _ => ?_, hbehind⟩
          by_cases hlast : names = []
          · subst hlast
            rw [List.append_nil]
            exact Nat.le_of_not_lt hbounded
          · exact hlonger hlast

/-- The names of an entry that is no link lead to it. -/
theorem follow_place (hplace : ∀ name ∈ place, IsEntryName name) (hentry : d.at? place = some entry)
    (hlink : ∀ target, entry ≠ .link target) :
    d.follow through links [] (place.map String.toList) = .ok (.found place entry) := by
  cases entry with
  | link target => exact absurd rfl (hlink target)
  | directory =>
      have hpassed := @follow_names d [] place through links hplace hentry []
      rw [List.append_nil, List.nil_append] at hpassed
      rw [hpassed, follow]
  | file content executable =>
      have hroot : place ≠ [] := by
        rintro rfl
        rw [at?_root] at hentry
        cases hentry
      obtain ⟨parent, name, rfl⟩ : ∃ parent name, place = parent ++ [name] :=
        ⟨_, _, (List.dropLast_concat_getLast hroot).symm⟩
      have hparent : d.at? parent = some .directory :=
        at?_eq_directory_of_below (List.prefix_append parent [name]) (by simp) hentry
      have hnames := fun other hother => hplace other (List.mem_append_left [name] hother)
      have hname := hplace name (List.mem_append_right parent List.mem_cons_self)
      rw [List.map_append, follow_names hnames hparent, List.nil_append, List.map_singleton,
        follow_of_namesEntry hname.named, String.ofList_toList, hentry]
      rfl

/-- The path of a place is followed by its names. -/
theorem locate_path_eq (hplace : ∀ name ∈ place, IsEntryName name) :
    d.locate here through place.path =
      d.follow through linkLimit [] (place.map String.toList) := by
  have hwritten : ¬place.path.text.isEmpty := by simp [Place.path]
  rw [locate, if_neg (Place.clean_path hplace), if_neg hwritten, if_pos place.isAbsolute_path,
    Place.split_path hplace, follow, if_pos (.inl rfl)]
  split
  · rename_i hroot
    subst hroot
    rw [follow, if_pos (.inl rfl), List.map_nil]
  · rfl

/-- The path of a place leads to the entry there, unless that is a link. -/
theorem locate_path (hplace : ∀ name ∈ place, IsEntryName name) (hentry : d.at? place = some entry)
    (hlink : ∀ target, entry ≠ .link target) :
    d.locate here through place.path = .ok (.found place entry) := by
  rw [locate_path_eq hplace]
  exact follow_place hplace hentry hlink

/-- A relative path leads, behind the path of a directory, where its pieces lead from there. -/
theorem locate_behind (hplace : ∀ name ∈ place, IsEntryName name)
    (hdirectory : d.at? place = some .directory) {p : Path} (hp : p.isAbsolute = false) :
    d.locate here through (place.path.join p) =
      if '\x00' ∈ p.text.toList then .error .nullInPath
      else d.follow through linkLimit place (Text.split '/' p.text.toList) := by
  have hchars := Place.toList_text_join hplace hp
  have habsolute := Path.isAbsolute_join_of_isAbsolute place.isAbsolute_path p
  have hclean : '\x00' ∈ (place.path.join p).text.toList ↔ '\x00' ∈ p.text.toList := by
    simp [hchars, Place.clean_chars hplace]
  have hwritten : ¬(place.path.join p).text.isEmpty := by
    intro hempty
    rw [String.isEmpty_iff.mp hempty] at hchars
    simp at hchars
  have hpassed := @follow_names d [] place through linkLimit hplace hdirectory
    (Text.split '/' p.text.toList)
  have hled : d.follow through linkLimit [] (Text.split '/' (place.path.join p).text.toList) =
      d.follow through linkLimit place (Text.split '/' p.text.toList) := by
    rw [Place.split_join hplace hp, follow, if_pos (.inl rfl), hpassed, List.nil_append]
  unfold locate
  simp only [hclean, if_neg hwritten, if_pos habsolute, hled]

/-- A relative path leads, behind the path of a directory, where it leads from that directory. -/
theorem locate_join (hplace : ∀ name ∈ place, IsEntryName name)
    (hdirectory : d.at? place = some .directory) {p : Path} (hp : p.isAbsolute = false)
    (hwritten : p.text ≠ "") :
    d.locate here through (place.path.join p) = d.locate place through p := by
  have hspoken : ¬p.text.isEmpty := by simpa using hwritten
  have hstands : d.isDirectoryAt place = true := isDirectoryAt_iff.mpr hdirectory
  rw [locate_behind hplace hdirectory hp, locate, if_neg hspoken, hp,
    if_neg Bool.false_ne_true, if_pos hstands]

theorem locate_join_empty (hplace : ∀ name ∈ place, IsEntryName name)
    (hdirectory : d.at? place = some .directory) :
    d.locate here through (place.path.join ⟨""⟩) = .ok (.found place .directory) := by
  rw [locate_behind hplace hdirectory (by decide), if_neg (by decide)]
  have hpieces : Text.split '/' (Path.mk "").text.toList = [[]] := rfl
  rw [hpieces, follow, if_pos (.inl rfl), follow]

/-- A path through all links leads to no link. -/
theorem Leads.ne_link {pieces : List (List Char)} {spot : Spot}
    (hleads : d.Leads true links here pieces spot) (place : Place) (target : Path) :
    spot ≠ .found place (.link target) := by
  induction hleads with
  | arrived => rintro ⟨⟩
  | silent _ _ ih => exact ih
  | above _ ih => exact ih
  | vacant => rintro ⟨⟩
  | directory _ _ _ ih => exact ih
  | file => rintro ⟨⟩
  | link _ _ hlast => cases hlast
  | linked _ _ _ _ ih => exact ih

/-- What a path through all links leads to stands there and is no link. -/
theorem stands_of_locate {p : Path} (hlocate : d.locate here true p = .ok (.found place entry)) :
    d.at? place = some entry ∧ ∀ target, entry ≠ .link target := by
  have hled : ∃ origin pieces, d.at? origin = some .directory ∧
      d.follow true linkLimit origin pieces = .ok (.found place entry) := by
    unfold locate at hlocate
    split at hlocate
    · cases hlocate
    · split at hlocate
      · cases hlocate
      · split at hlocate
        · exact ⟨[], _, at?_root, hlocate⟩
        · split at hlocate
          · rename_i hhere
            exact ⟨here, _, isDirectoryAt_iff.mp hhere, hlocate⟩
          · cases hlocate
  obtain ⟨origin, pieces, horigin, hfollow⟩ := hled
  have hleads := leads_of_follow hfollow
  refine ⟨hleads.stands horigin, ?_⟩
  rintro target rfl
  exact hleads.ne_link place target rfl

end Disk

namespace Machine

variable {m : Machine} {p q : Path} {place : Place} {entry : Entry}

/-- The path leads to the place. -/
def LeadsTo (m : Machine) (p : Path) (place : Place) : Prop :=
  ∃ entry, m.disk.locate m.directory true p = .ok (.found place entry)

/-- If the path leads to anything, its way stays short: a path that exists is resolved. -/
def Resolves (m : Machine) (p : Path) : Prop := ∀ place, m.LeadsTo p place → m.staysShort p

/-- A machine whose disk could be one: the working directory is there, and all names are names of
entries. -/
structure Ordinary (m : Machine) : Prop where
  /-- The working directory is a directory. -/
  directory : m.disk.at? m.directory = some .directory
  /-- What can be reached has such names. -/
  names : ∀ place entry, m.disk.at? place = some entry → ∀ name ∈ place, IsEntryName name

/-- The path is kept as it is. -/
structure Identifies (m : Machine) (p : Path) : Prop where
  /-- It is absolute. -/
  absolute : p.isAbsolute
  /-- Its identity is the same path. -/
  same : (m.identity p).Same p
  /-- Its identity is written alike, apart from a slash behind the working directory. -/
  written : m.identity p = p ∨ p = m.directory.path.join ⟨""⟩ ∧ m.identity p = m.directory.path

theorem canonical_of_leadsTo (hleads : m.LeadsTo p place) (hshort : m.staysShort p) :
    m.canonical p = .ok place.path := by
  obtain ⟨entry, hlocate⟩ := hleads
  exact canonical_eq_ok_iff.mpr ⟨hshort, place, entry, hlocate, rfl⟩

/-- A path is resolved unless it leads nowhere, or by a way that does not stay short. -/
theorem canonical_of_unresolved (hnone : ∀ place, m.LeadsTo p place → m.staysShort p = false) :
    ∃ e, m.canonical p = .error e := by
  cases hcanonical : m.canonical p with
  | error e => exact ⟨e, rfl⟩
  | ok known =>
      obtain ⟨hshort, place, entry, hlocate, -⟩ := canonical_eq_ok_iff.mp hcanonical
      cases hshort.symm.trans (hnone place ⟨entry, hlocate⟩)

theorem identity_of_leadsTo (hleads : m.LeadsTo p place) (hshort : m.staysShort p) :
    m.identity p = place.path := by
  rw [identity, canonical_of_leadsTo hleads hshort]

theorem Alike.leadsTo_iff {other : Machine} (halike : m.Alike other) :
    other.LeadsTo p place ↔ m.LeadsTo p place := by
  unfold LeadsTo
  rw [halike.setting.directory]
  rcases Spot.cases_of_emptied (halike.disk.locate m.directory true p) with
    ⟨known, content, held, executable, hspot, hother⟩ | hsame
  · rw [hspot, hother]
    simp
  · rw [hsame]

/-- Kept paths that are resolved to one place are spellings of one path. -/
theorem Identifies.same_of_leadsTo (hp : m.Identifies p) (hq : m.Identifies q)
    (hleads : m.LeadsTo p place) (hother : m.LeadsTo q place) (hshort : m.staysShort p)
    (hbeside : m.staysShort q) : p.Same q := by
  have hpath := hp.same
  rw [identity_of_leadsTo hleads hshort, ← identity_of_leadsTo hother hbeside] at hpath
  exact hpath.symm.trans hq.same

theorem identity_of_absolute {e : IoError} (hcanonical : m.canonical p = .error e)
    (habsolute : p.isAbsolute) : m.identity p = p := by
  rw [identity, hcanonical]
  simp only [habsolute, if_true]

/-- The identity of an absolute path to an entry. -/
theorem identity_eq_ite (hp : p.isAbsolute) (hleads : m.LeadsTo p place) :
    m.identity p = if m.staysShort p then place.path else p := by
  cases hshort : m.staysShort p with
  | true => exact identity_of_leadsTo hleads hshort
  | false =>
      obtain ⟨e, hcanonical⟩ := canonical_of_unresolved fun _ _ => hshort
      exact identity_of_absolute hcanonical hp

theorem identity_of_relative (hordinary : m.Ordinary) {e : IoError}
    (hcanonical : m.canonical p = .error e) (hrelative : p.isAbsolute = false) :
    m.identity p = m.directory.path.join p := by
  have hstands : m.disk.isDirectoryAt m.directory = true :=
    Disk.isDirectoryAt_iff.mpr hordinary.directory
  rw [identity, hcanonical]
  simp only [hrelative, Bool.false_eq_true, if_false, workingDirectory, hstands, if_true]

theorem isAbsolute_identity_of_canonical {known : Path} (hcanonical : m.canonical p = .ok known) :
    (m.identity p).isAbsolute := by
  rw [identity, hcanonical]
  exact isAbsolute_of_canonical hcanonical

theorem isAbsolute_identity (m : Machine) (hp : p.isAbsolute) : (m.identity p).isAbsolute := by
  cases hcanonical : m.canonical p with
  | ok known => exact isAbsolute_identity_of_canonical hcanonical
  | error e =>
      rw [identity_of_absolute hcanonical hp]
      exact hp

/-- An identity that leads anywhere is absolute. -/
theorem isAbsolute_identity_of_find {spot : Spot} (hfind : m.find (m.identity p) = .ok spot) :
    (m.identity p).isAbsolute := by
  cases hcanonical : m.canonical p with
  | ok known => exact isAbsolute_identity_of_canonical hcanonical
  | error e =>
      by_cases habsolute : p.isAbsolute
      · exact m.isAbsolute_identity habsolute
      · by_cases hstands : m.disk.isDirectoryAt m.directory = true
        · have hidentity : m.identity p = m.directory.path.join p := by
            rw [identity, hcanonical]
            simp only [habsolute, Bool.false_eq_true, if_false, workingDirectory, hstands, if_true]
          rw [hidentity]
          exact Path.isAbsolute_join_of_isAbsolute m.directory.isAbsolute_path p
        · have hidentity : m.identity p = p := by
            rw [identity, hcanonical]
            simp only [habsolute, Bool.false_eq_true, if_false, workingDirectory, hstands]
          rw [hidentity] at hfind
          obtain ⟨hadmits, -⟩ := Disk.lookup_eq_ok_iff.mp hfind
          have hrooted := hadmits.rooted
          rw [Disk.origin, if_neg habsolute] at hrooted
          exact absurd (Disk.isDirectoryAt_iff.mpr hrooted) hstands

/-- The path of an entry that is no link is its own identity, whether it is too long or not. -/
theorem identity_path (hplace : ∀ name ∈ place, IsEntryName name)
    (hentry : m.disk.at? place = some entry) (hlink : ∀ target, entry ≠ .link target) :
    m.identity place.path = place.path := by
  cases hcanonical : m.canonical place.path with
  | error e => exact identity_of_absolute hcanonical place.isAbsolute_path
  | ok known =>
      obtain ⟨-, found, kept, hlocate, rfl⟩ := canonical_eq_ok_iff.mp hcanonical
      rw [Disk.locate_path hplace hentry hlink] at hlocate
      cases hlocate
      rw [identity, hcanonical]

/-- A path that leads to the place that it is written for is its own identity. -/
theorem identity_of_place (hpath : p = place.path) (hplace : ∀ name ∈ place, IsEntryName name)
    (hfind : m.find p = .ok (.found place entry)) : m.identity p = p := by
  obtain ⟨hentry, hlink⟩ := Disk.stands_of_locate (locate_of_find hfind)
  rw [hpath, identity_path hplace hentry hlink]

/-- If it leaves room for a slash, a project can be named by it too. -/
theorem namedRoot_of_place {name : String} (hpath : Path.mk name = place.path)
    (hplace : ∀ name ∈ place, IsEntryName name) (hsize : name.utf8ByteSize < pathLimit)
    (hfind : m.find ⟨name⟩ = .ok (.found place entry)) : m.namedRoot name = .ok ⟨name⟩ := by
  have hlocate := locate_of_find hfind
  obtain ⟨hentry, hlink⟩ := Disk.stands_of_locate hlocate
  have habsolute : (Path.mk name).isAbsolute := hpath ▸ place.isAbsolute_path
  have hother : ¬(Path.mk name).Same ⟨"."⟩ := fun hsame => by
    have hdot : (Path.mk ".").isAbsolute = false := rfl
    cases hdot.symm.trans (hsame.isAbsolute.trans habsolute)
  have hshort : m.staysShort ⟨name⟩ := by
    rw [staysShort, Disk.origin, if_pos habsolute, hpath, Place.split_path hplace,
      Disk.staysShort_of_silent (.inl rfl)]
    split
    · rw [Disk.staysShort_of_silent (.inl rfl), Disk.staysShort]
    · exact Disk.staysShort_along hplace hentry hlink (congrArg Path.text hpath ▸ hsize)
  rw [namedRoot, if_neg hother, canonical_of_leadsTo ⟨entry, hlocate⟩ hshort, ← hpath]

/-- A name that is not resolved is put behind the working directory. -/
theorem namedRoot_of_unresolved {root : String} (hname : ¬(Path.mk root).Same ⟨"."⟩)
    (hnone : ∀ place, m.LeadsTo ⟨root⟩ place → m.staysShort ⟨root⟩ = false)
    (hhere : m.disk.at? m.directory = some .directory) :
    m.namedRoot root = .ok (m.directory.path.join ⟨root⟩) := by
  have hstands : m.disk.isDirectoryAt m.directory = true := Disk.isDirectoryAt_iff.mpr hhere
  obtain ⟨e, hunresolved⟩ := canonical_of_unresolved hnone
  simp only [namedRoot, hname, if_false, hunresolved, workingDirectory, hstands, if_true]
  rfl

/-- A path that is kept as it is written is kept so again. -/
theorem identifies_of_identity (habsolute : p.isAbsolute) (hidentity : m.identity p = p) :
    m.Identifies p := ⟨habsolute, by rw [hidentity]; rfl, .inl hidentity⟩

/-- If a path stays short behind the path of the working directory, it stays short from there. -/
theorem staysShort_of_join (hordinary : m.Ordinary) (hrelative : p.isAbsolute = false)
    (hshort : m.staysShort (m.directory.path.join p)) : m.staysShort p := by
  have hnames := hordinary.names _ _ hordinary.directory
  have hrooted := Path.isAbsolute_join_of_isAbsolute m.directory.isAbsolute_path p
  rw [staysShort, Disk.origin, if_pos hrooted, Place.split_join hnames hrelative,
    Disk.staysShort_of_silent (.inl rfl)] at hshort
  rw [staysShort, Disk.origin, if_neg (by simp [hrelative])]
  exact (@Disk.staysShort_names m.disk [] m.directory linkLimit hnames hordinary.directory _
    hshort).2

/-- A relative path that is not resolved is not resolved behind the path of the working directory
either. -/
theorem canonical_join_of_error (hordinary : m.Ordinary) (hrelative : p.isAbsolute = false)
    (hwritten : p.text ≠ "") {e : IoError} (hcanonical : m.canonical p = .error e) :
    ∃ e, m.canonical (m.directory.path.join p) = .error e := by
  refine canonical_of_unresolved fun place ⟨entry, hlocate⟩ =>
    Bool.eq_false_iff.mpr fun hshort => ?_
  rw [Disk.locate_join (hordinary.names _ _ hordinary.directory) hordinary.directory hrelative
    hwritten] at hlocate
  rw [canonical_of_leadsTo ⟨entry, hlocate⟩ (staysShort_of_join hordinary hrelative hshort)]
    at hcanonical
  cases hcanonical

theorem isAbsolute_identity_of_ordinary (hordinary : m.Ordinary) (p : Path) :
    (m.identity p).isAbsolute := by
  cases hcanonical : m.canonical p with
  | ok known => exact isAbsolute_identity_of_canonical hcanonical
  | error e =>
      cases habsolute : p.isAbsolute with
      | true => exact m.isAbsolute_identity habsolute
      | false =>
          rw [identity_of_relative hordinary hcanonical habsolute]
          exact Path.isAbsolute_join_of_isAbsolute m.directory.isAbsolute_path p

/-- The identity of an identity is written alike, unless the path is empty. -/
theorem identity_identity (hordinary : m.Ordinary) (hwritten : p.text ≠ "") :
    m.identity (m.identity p) = m.identity p := by
  cases hcanonical : m.canonical p with
  | ok known =>
      obtain ⟨-, place, entry, hlocate, rfl⟩ := canonical_eq_ok_iff.mp hcanonical
      obtain ⟨hentry, hlink⟩ := Disk.stands_of_locate hlocate
      have hkept : m.identity p = place.path := by rw [identity, hcanonical]
      rw [hkept, identity_path (hordinary.names place entry hentry) hentry hlink]
  | error e =>
      have habsolute := isAbsolute_identity_of_ordinary hordinary p
      cases hrooted : p.isAbsolute with
      | true =>
          have hkept := identity_of_absolute hcanonical hrooted
          rw [hkept, hkept]
      | false =>
          obtain ⟨e, hjoin⟩ := canonical_join_of_error hordinary hrooted hwritten hcanonical
          rw [identity_of_relative hordinary hcanonical hrooted] at habsolute ⊢
          exact identity_of_absolute hjoin habsolute

/-- The identity of a path is kept as it is. -/
theorem identifies_identity (hordinary : m.Ordinary) (p : Path) : m.Identifies (m.identity p) := by
  by_cases hwritten : p.text = ""
  · obtain rfl : p = ⟨""⟩ := congrArg Path.mk hwritten
    have hrooted := m.directory.isAbsolute_path
    have hjoined := Path.isAbsolute_join_of_isAbsolute hrooted ⟨""⟩
    have hnowhere : ∀ place, ¬m.LeadsTo ⟨""⟩ place := fun place ⟨entry, hlocate⟩ =>
      nomatch (Disk.locate_eq_ok_iff.mp hlocate).2.1
    obtain ⟨e, hcanonical⟩ :=
      canonical_of_unresolved fun place hleads => absurd hleads (hnowhere place)
    rw [identity_of_relative hordinary hcanonical (by decide)]
    cases hslashed : m.canonical (m.directory.path.join ⟨""⟩) with
    | error e => exact identifies_of_identity hjoined (identity_of_absolute hslashed hjoined)
    | ok known =>
        obtain ⟨-, place, entry, hlocate, rfl⟩ := canonical_eq_ok_iff.mp hslashed
        rw [Disk.locate_join_empty (hordinary.names _ _ hordinary.directory) hordinary.directory]
          at hlocate
        cases hlocate
        have hidentity : m.identity (m.directory.path.join ⟨""⟩) = m.directory.path := by
          rw [identity, hslashed]
        refine ⟨hjoined, ?_, .inr ⟨rfl, hidentity⟩⟩
        rw [hidentity]
        exact (Path.same_join_empty hrooted).symm
  · exact identifies_of_identity (isAbsolute_identity_of_ordinary hordinary p)
      (identity_identity hordinary hwritten)

end Machine

end ScriptAssembly
