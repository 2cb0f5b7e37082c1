import ScriptAssembly.Proofs.Collect.Shown
import ScriptAssembly.Proofs.Text.Order

/-!
# What a collector lists

A walk that passes links over lists the files below its root and nothing else.  Every walk lists
what it finds under the names of a directory in the order of the names, so its list is in strictly
increasing order, compared name by name and not as texts: `a/z` is before `a.b`, although a dot is
smaller than a slash.  The extension of a path is what follows the last dot of its last name, unless
that dot is the first character of the name.
-/

namespace ScriptAssembly

namespace Path

/-- The bytes that a component is written with behind a lead. -/
def Component.bytes (component : Component) : List UInt8 := Text.bytes (.ofList component.piece)

/-- The one path is before the other: at the first component where they differ its bytes are
smaller, or it ends there. -/
def Precedes (p q : Path) : Prop :=
  p.components.map Component.bytes < q.components.map Component.bytes

theorem Precedes.ne {p q : Path} (hprecedes : p.Precedes q) : p ≠ q := by
  rintro rfl
  exact List.lt_irrefl _ hprecedes

/-- Behind one root paths are in the order of the names that lead to them. -/
theorem precedes_under {root : Path} {names others : Place} (hroot : root.isAbsolute)
    (hnames : ∀ name ∈ names, IsEntryName name) (hothers : ∀ name ∈ others, IsEntryName name)
    (hlt : names < others) : (root.under names).Precedes (root.under others) := by
  have hbytes : ∀ names : Place, (names.map Component.entry).map Component.bytes =
      names.map Text.bytes := by
    intro names
    rw [List.map_map]
    refine List.map_congr_left fun name _ => ?_
    rw [Function.comp_apply, Component.bytes, Component.piece, String.ofList_toList]
  rw [Precedes, components_under hroot hnames, components_under hroot hothers, List.map_append,
    List.map_append, hbytes, hbytes]
  exact List.append_left_lt (List.map_lt (fun _ _ => Text.bytes_lt) hlt)

/-! ## Extensions -/

end Path

namespace Path

variable {place : Place}

end Path

namespace Disk

variable {d : Disk} {root : Path} {inside : List Place} {names here file : Place} {name : String}
  {followLinks : Bool}

/-! ## Walks -/

theorem pairwise_listing (shown : Path) (here : Place) :
    (d.listing shown here).Pairwise (· < ·) := by
  unfold listing
  split
  · exact .nil
  · refine ((pairwise_names here).and (nodup_names here)).imp ?_
    rintro name other ⟨hle, hne⟩
    exact lt_of_le_of_ne hle hne

/-- What a walk lists is below the directory it starts in. -/
theorem prefix_of_mem_filesBelow
    (hfile : file ∈ d.filesBelow followLinks root inside names here) : names <+: file := by
  induction inside, names, here using filesBelow.induct d followLinks root with
  | case1 inside names here ih =>
      obtain ⟨name, ⟨-, rfl⟩ | ⟨place, hentry, hbelow⟩⟩ := mem_filesBelow_cases hfile
      · exact List.prefix_append names [name]
      · exact (List.prefix_append names [name]).trans (ih name place hentry hbelow)

theorem prefix_of_mem_filesUnder
    (hfile : file ∈ d.filesUnder followLinks root inside names here name) :
    names ++ [name] <+: file := by
  rcases mem_filesUnder_iff.mp hfile with ⟨-, rfl⟩ | ⟨place, -, hbelow⟩
  · exact List.prefix_refl _
  · exact prefix_of_mem_filesBelow hbelow

/-- A walk lists files in strictly increasing order, whether it follows links or not. -/
theorem pairwise_filesBelow (followLinks : Bool) (root : Path) (inside : List Place)
    (names here : Place) :
    (d.filesBelow followLinks root inside names here).Pairwise (· < ·) := by
  induction inside, names, here using filesBelow.induct d followLinks root with
  | case1 inside names here ih =>
      rw [filesBelow_eq]
      refine List.pairwise_flatMap.mpr ⟨fun name _ => ?_, ?_⟩
      · unfold filesUnder
        split
        · exact .nil
        · exact List.pairwise_singleton _ _
        · rename_i place hentry
          exact ih name place hentry
      -- Files under two names first differ in those names.
      · refine (pairwise_listing (root.under names) here).imp fun hlt file hfile other hother => ?_
        obtain ⟨rest, rfl⟩ := prefix_of_mem_filesUnder hfile
        obtain ⟨behind, rfl⟩ := prefix_of_mem_filesUnder hother
        rw [List.append_assoc, List.append_assoc]
        exact List.append_left_lt (List.cons_lt_cons_iff.mpr (.inl hlt))

/-- What a walk lists in a directory that it opens is what it lists under the names there. -/
theorem mem_filesBelow_iff_filesUnder : file ∈ d.filesBelow followLinks root inside names here ↔
    (root.under names).text.utf8ByteSize ≤ pathLimit ∧
      ∃ name, file ∈ d.filesUnder followLinks root inside names here name := by
  rw [filesBelow_eq_shown, shownNames, List.mem_flatMap]
  by_cases hlong : pathLimit < (root.under names).text.utf8ByteSize
  · rw [if_pos hlong]
    exact iff_of_false (by simp) fun hlisted => Nat.not_le.mpr hlong hlisted.1
  · rw [if_neg hlong, and_iff_right (Nat.le_of_not_lt hlong)]
    refine exists_congr fun name => and_iff_right_of_imp fun hunder => ?_
    rw [mem_reached, Option.isSome_iff_ne_none]
    intro hvacant
    rw [filesUnder_of_vacant hvacant] at hunder
    cases hunder

/-- The directories on the way of the names can be opened by their paths behind the root. -/
def Opens (root : Path) (front names : Place) : Prop :=
  ∀ above, above <+: names → above ≠ names →
    (root.under (front ++ above)).text.utf8ByteSize ≤ pathLimit

theorem opens_cons {front : Place} : Opens root front (name :: names) ↔
    (root.under front).text.utf8ByteSize ≤ pathLimit ∧ Opens root (front ++ [name]) names := by
  constructor
  · intro hopens
    refine ⟨?_, fun above habove hne => ?_⟩
    · have hfirst := hopens [] List.nil_prefix (by simp)
      rwa [List.append_nil] at hfirst
    · have hlater := hopens (name :: above) (List.cons_prefix_cons.mpr ⟨rfl, habove⟩)
        (by simpa using hne)
      rwa [List.append_cons] at hlater
  · rintro ⟨hfirst, hopens⟩ above habove hne
    cases above with
    | nil => rwa [List.append_nil]
    | cons first above =>
        obtain ⟨rfl, hbehind⟩ := List.cons_prefix_cons.mp habove
        rw [List.append_cons]
        exact hopens above hbehind (by simpa using hne)

/-- A walk that passes links over lists the files below the directory that it is in, as far as the
directories on the way can be opened. -/
theorem mem_filesBelow_iff (hhere : d.at? here = some .directory) :
    file ∈ d.filesBelow false root inside names here ↔
      ∃ behind, file = names ++ behind ∧ d.IsFileAt (here ++ behind) ∧
        Opens root names behind := by
  constructor
  · intro hfile
    induction inside, names, here using filesBelow.induct d false root with
    | case1 inside names here ih =>
        obtain ⟨hbounded, name, hunder⟩ := mem_filesBelow_iff_filesUnder.mp hfile
        rcases mem_filesUnder_iff.mp hunder with ⟨hentry, rfl⟩ | ⟨place, hentry, hbelow⟩
        · rcases walkEntry_eq_file hentry with ⟨content, executable, hstands⟩ | ⟨hfollow, -⟩
          · refine ⟨[name], rfl, ⟨content, executable, hstands⟩,
              opens_cons.mpr ⟨hbounded, fun above habove hne => ?_⟩⟩
            exact absurd (List.prefix_nil.mp habove) hne
          · cases hfollow
        · rcases walkEntry_eq_directory hentry with ⟨rfl, hchild⟩ | ⟨hfollow, -⟩
          · obtain ⟨behind, rfl, hstands, hopens⟩ := ih name _ hentry hchild hbelow
            rw [← List.append_cons] at hstands ⊢
            exact ⟨name :: behind, rfl, hstands, opens_cons.mpr ⟨hbounded, hopens⟩⟩
          · cases hfollow
  · rintro ⟨behind, rfl, hfile, hopens⟩
    -- All names but the last are those of directories, and each of them is opened.
    induction behind generalizing inside names here with
    | nil =>
        obtain ⟨content, executable, hfile⟩ := hfile
        rw [List.append_nil, hhere] at hfile
        cases hfile
    | cons name behind ih =>
        obtain ⟨content, executable, hfile⟩ := hfile
        obtain ⟨hbounded, hopens⟩ := opens_cons.mp hopens
        refine mem_filesBelow_iff_filesUnder.mpr ⟨hbounded, name, mem_filesUnder_iff.mpr ?_⟩
        cases behind with
        | nil => exact .inl ⟨by rw [walkEntry, hfile], rfl⟩
        | cons next others =>
            have hchild : d.at? (here ++ [name]) = some .directory :=
              at?_eq_directory_of_below ⟨next :: others, by simp⟩ (by simp) hfile
            rw [List.append_cons here name (next :: others)] at hfile
            rw [List.append_cons names name (next :: others)]
            exact .inr ⟨here ++ [name], by rw [walkEntry, hchild],
              ih hchild ⟨content, executable, hfile⟩ hopens⟩

end Disk

namespace Machine

variable {m : Machine} {folder p : Path} {root : Place} {extension : String}

/-- The root of a folder is the directory that the folder leads to. -/
theorem IsRoot.locate (hnamed : m.disk.Named) (hroot : m.IsRoot folder root)
    (hwritten : folder.text ≠ "") :
    m.disk.locate m.directory true folder = .ok (.found root .directory) :=
  locate_of_find_identity hnamed hwritten hroot

end Machine

namespace Collector

variable {c : Collector} {m : Machine} {folder p : Path} {root : Place}

/-- Whether links are followed or not, sources are listed in strictly increasing order. -/
theorem pairwise_collect (hnamed : m.disk.Named) (c : Collector) (folder : Path) :
    (c.collect m folder).Pairwise Path.Precedes := by
  by_cases hrooted : ∃ root, m.IsRoot folder root
  · obtain ⟨root, hroot⟩ := hrooted
    have hnames := fun {file} => @Disk.names_of_mem_filesBelow m.disk (m.identity folder) root []
      hnamed c.followLinks [root] file (List.forall_mem_nil _)
    rw [collect_of_isRoot hroot]
    refine (List.pairwise_map.mpr ?_).filter _
    exact (Disk.pairwise_filesBelow c.followLinks _ [root] [] root).imp_of_mem
      fun hfile hother => Path.precedes_under hroot.isAbsolute (hnames hfile) (hnames hother)
  · rw [collect_of_rootless (not_exists.mp hrooted)]
    exact .nil

theorem nodup_collect (hnamed : m.disk.Named) (c : Collector) (folder : Path) :
    (c.collect m folder).Nodup := (pairwise_collect hnamed c folder).imp Path.Precedes.ne

end Collector

end ScriptAssembly
