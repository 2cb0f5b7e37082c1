import ScriptAssembly.Proofs.Machine.Spelling

/-!
# Normal forms of paths

The identity of a path is a normal form: it is absolute, it leads where the path leads, and its own
identity is the same path.  Paths that are resolved have the same normal form exactly if they lead
to one place, whatever links and steps upwards are on the way.  A path that leads to something too
deep on the disk to be resolved is its own normal form, one of several for one place.
-/

namespace ScriptAssembly

namespace Machine

variable {m : Machine} {p q : Path} {place other : Place}

theorem LeadsTo.written (hleads : m.LeadsTo p place) : p.text ≠ "" := by
  obtain ⟨entry, hlocate⟩ := hleads
  obtain ⟨-, hwritten, -, -⟩ := Disk.locate_eq_ok_iff.mp hlocate
  simpa using hwritten

/-- An identity leads to the place that the path leads to. -/
theorem LeadsTo.identity (hleads : m.LeadsTo p place) (hnamed : m.disk.Named) :
    m.LeadsTo (m.identity p) place := by
  obtain ⟨entry, hlocate⟩ := hleads
  exact ⟨entry, (locate_identity hnamed (LeadsTo.written ⟨entry, hlocate⟩)).trans hlocate⟩

end Machine

/-! ## A directory that is too deep -/

/-- A name of 250 characters. -/
def rung : String := .ofList (List.replicate 250 'd')

/-- The directory that many names down. -/
def rungs (count : Nat) : Place := List.replicate count rung

/-- Directories with one name, one in the other, whose path gets too long, with some content in the
last one.  A link leads half the way down, and two links lead from there to the last directory. -/
def shaft (content : List (Place × Entry)) : Disk where
  entries := [(["half"], .link (rungs 8).path), (["a"], .link (Place.path ("half" :: rungs 9))),
      (["b"], .link (Place.path ("half" :: rungs 9)))] ++
    (List.range 17).map (fun count => (rungs (count + 1), .directory)) ++
    content.map fun known => (rungs 17 ++ known.1, known.2)

theorem toList_rung : rung.toList = List.replicate 250 'd' := String.toList_ofList

theorem size_ofList_replicate {c : Char} (hc : (String.ofList [c]).utf8ByteSize = 1) (count : Nat) :
    (String.ofList (List.replicate count c)).utf8ByteSize = count := by
  induction count with
  | zero => rfl
  | succ count ih =>
      rw [List.replicate_succ, ← List.singleton_append, String.ofList_append,
        String.utf8ByteSize_append, ih, hc, Nat.add_comm]

theorem size_rung : rung.utf8ByteSize = 250 := size_ofList_replicate (by decide) 250

theorem isEntryName_rung : IsEntryName rung := by
  have hall : ∀ c ∈ rung.toList, c = 'd' := by
    rw [toList_rung]
    exact fun c hc => List.eq_of_mem_replicate hc
  have hlength : rung.toList.length = 250 := by rw [toList_rung, List.length_replicate]
  refine ⟨⟨?_, ?_, ?_⟩, fun hslash => ?_, fun hnull => ?_⟩
  · rintro (hempty | hdot)
    · rw [hempty] at hlength
      cases hlength
    · rw [hdot] at hlength
      cases hlength
  · intro habove
    rw [habove] at hlength
    cases hlength
  · rw [String.ofList_toList, size_rung]
    decide
  · cases hall _ hslash
  · cases hall _ hnull

theorem isEntryName_of_mem_rungs {count : Nat} : ∀ name ∈ rungs count, IsEntryName name := by
  intro name hname
  rw [List.eq_of_mem_replicate hname]
  exact isEntryName_rung

theorem size_path_rungs (count : Nat) :
    (rungs (count + 1)).path.text.utf8ByteSize = 251 * (count + 1) := by
  induction count with
  | zero =>
      have htext : (rungs 1).path.text = "/" ++ rung := by
        rw [← String.toList_inj, Place.toList_text_path (by simp [rungs])]
        simp [rungs, Place.chars]
      have hslash : "/".utf8ByteSize = 1 := rfl
      rw [htext, String.utf8ByteSize_append, hslash, size_rung]
  | succ count ih =>
      have hlonger : rungs (count + 2) = rungs (count + 1) ++ [rung] := List.replicate_succ'
      have hslash : "/".utf8ByteSize = 1 := rfl
      rw [hlonger, Disk.text_path_concat (by simp [rungs]), String.utf8ByteSize_append,
        String.utf8ByteSize_append, ih, hslash, size_rung]
      omega

namespace Disk

variable {content : List (Place × Entry)} {count : Nat} {name : String} {links : Nat}
  {rest : List (List Char)}

theorem lookup_map_of_mem {α β γ : Type} [BEq β] [LawfulBEq β] {f : α → β} {xs : List α} {x : α}
    (hmem : x ∈ xs) (value : γ) : (xs.map fun x => (f x, value)).lookup (f x) = some value := by
  induction xs with
  | nil => cases hmem
  | cons first xs ih =>
      rw [List.map_cons, List.lookup_cons]
      by_cases hsame : f x = f first
      · simp [hsame]
      · have hlater : x ∈ xs := (List.mem_cons.mp hmem).resolve_left fun heq => hsame (heq ▸ rfl)
        rw [beq_false_of_ne hsame]
        exact ih hlater

theorem lookup_append_of_ne {key : Place} {entries others : List (Place × Entry)}
    (hkey : ∀ known ∈ entries, known.1 ≠ key) :
    (entries ++ others).lookup key = others.lookup key := by
  have hnone : entries.lookup key = none := List.lookup_eq_none_iff.mpr fun known hknown =>
    bne_iff_ne.mpr (hkey known hknown).symm
  rw [List.lookup_append, hnone, Option.none_or]

/-- Below the first directory nothing is looked up among the links. -/
theorem noted?_rung (names : Place) : (shaft content).noted? (rung :: names) =
    ((List.range 17).map (fun count => (rungs (count + 1), Entry.directory)) ++
      content.map fun known => (rungs 17 ++ known.1, known.2)).lookup (rung :: names) := by
  have hentries : (shaft content).noted? (rung :: names) =
      (shaft content).entries.lookup (rung :: names) := rfl
  rw [hentries, shaft, List.append_assoc]
  refine lookup_append_of_ne fun known hknown hsame => ?_
  have hshort : ∀ known ∈ [(["half"], Entry.link (rungs 8).path),
      (["a"], .link (Place.path ("half" :: rungs 9))),
      (["b"], .link (Place.path ("half" :: rungs 9)))],
      ∃ name, known.1 = [name] ∧ name.toList.length ≤ 4 := by
    simp only [List.forall_mem_cons]
    exact ⟨⟨_, rfl, by decide⟩, ⟨_, rfl, by decide⟩, ⟨_, rfl, by decide⟩, List.forall_mem_nil _⟩
  obtain ⟨name, hname, hlength⟩ := hshort known hknown
  rw [hname] at hsame
  rw [(List.cons.inj hsame).1, toList_rung, List.length_replicate] at hlength
  omega

theorem at?_rungs (hcount : count ≤ 17) : (shaft content).at? (rungs count) = some .directory := by
  induction count with
  | zero => exact at?_root
  | succ count ih =>
      have hlonger : rungs (count + 1) = rungs count ++ [rung] := List.replicate_succ'
      have hfirst : rungs (count + 1) = rung :: rungs count := List.replicate_succ
      have hchain := lookup_map_of_mem (f := fun count => rungs (count + 1))
        (List.mem_range.mpr hcount) Entry.directory
      rw [hlonger, at?_concat (ih (by omega)), ← hlonger, hfirst, noted?_rung, List.lookup_append,
        ← hfirst, hchain, Option.some_or]

/-- What stands in the last directory is the content. -/
theorem noted?_bottom {names : Place} (hnames : names ≠ []) :
    (shaft content).noted? (rungs 17 ++ names) = content.lookup names := by
  have hfirst : rungs 17 ++ names = rung :: (rungs 16 ++ names) := rfl
  rw [hfirst, noted?_rung, ← hfirst, lookup_append_of_ne]
  · induction content with
    | nil => rfl
    | cons known content ih =>
        rw [List.map_cons, List.lookup_cons, List.lookup_cons, ih]
        by_cases hsame : names = known.1
        · simp [hsame]
        · have happart : rungs 17 ++ names ≠ rungs 17 ++ known.1 := by simpa using hsame
          simp only [beq_false_of_ne happart, beq_false_of_ne hsame]
  · intro known hknown hsame
    obtain ⟨count, hcount, rfl⟩ := List.mem_map.mp hknown
    have hlength := congrArg List.length hsame
    have hlonger := List.length_pos_of_ne_nil hnames
    rw [List.length_append, rungs, rungs, List.length_replicate, List.length_replicate] at hlength
    have hbound := List.mem_range.mp hcount
    omega

theorem named_shaft (hcontent : ∀ known ∈ content, ∀ name ∈ known.1, IsEntryName name) :
    (shaft content).Named := by
  refine named_of_entries fun known hknown => ?_
  rcases List.mem_append.mp hknown with hknown | hknown
  · rcases List.mem_append.mp hknown with hknown | hknown
    · simp only [List.mem_cons, List.not_mem_nil, or_false] at hknown
      rcases hknown with rfl | rfl | rfl
      · decide
      · decide
      · decide
    · obtain ⟨count, -, rfl⟩ := List.mem_map.mp hknown
      exact isEntryName_of_mem_rungs
  · obtain ⟨known, hmem, rfl⟩ := List.mem_map.mp hknown
    intro name hname
    rcases List.mem_append.mp hname with hrung | hname
    · exact isEntryName_of_mem_rungs name hrung
    · exact hcontent known hmem name hname

theorem split_half :
    Text.split '/' (rungs 8).path.text.toList = [] :: (rungs 8).map String.toList := by
  rw [Place.split_path isEntryName_of_mem_rungs, if_neg (by simp [rungs])]

theorem split_bottom : Text.split '/' (Place.path ("half" :: rungs 9)).text.toList =
    [] :: "half".toList :: (rungs 9).map String.toList := by
  have hnames : ∀ name ∈ "half" :: rungs 9, IsEntryName name :=
    List.forall_mem_cons.mpr ⟨by decide, isEntryName_of_mem_rungs⟩
  rw [Place.split_path hnames, if_neg (List.cons_ne_nil _ _), List.map_cons]

/-- The ways through the links go down to the last directory. -/
theorem rungs_through (rest : List (List Char)) :
    (rungs 8).map String.toList ++ ((rungs 9).map String.toList ++ rest) =
      (rungs 17).map String.toList ++ rest := by
  rw [← List.append_assoc, ← List.map_append]
  rfl

section link

variable {piece : List Char} (hpiece : piece = ['a'] ∨ piece = ['b'])

include hpiece

theorem at?_link : NamesEntry piece ∧ (shaft content).at? ([] ++ [.ofList piece]) =
    some (.link (Place.path ("half" :: rungs 9))) := by
  rcases hpiece with rfl | rfl
  · exact ⟨by decide, rfl⟩
  · exact ⟨by decide, rfl⟩

/-- The pieces behind either link to the last directory are followed from there. -/
theorem follow_shaft : (shaft content).follow true (links + 2) [] (piece :: rest) =
    (shaft content).follow true links (rungs 17) rest := by
  obtain ⟨hname, hlink⟩ := @at?_link content piece hpiece
  have hhalf : (shaft content).at? ([] ++ [.ofList "half".toList]) = some (.link (rungs 8).path) :=
    rfl
  have hunlast : ∀ parts : List (List Char), ¬(parts.isEmpty && !true) := by simp
  have hbottom := @follow_names (shaft content) [] (rungs 17) true links isEntryName_of_mem_rungs
    (at?_rungs (Nat.le_refl 17)) rest
  rw [follow_of_namesEntry hname, hlink]
  dsimp only
  rw [if_neg (hunlast _), if_pos (Place.isAbsolute_path _), split_bottom, List.cons_append, follow,
    if_pos (.inl rfl), List.cons_append, follow_of_namesEntry (by decide), hhalf]
  dsimp only
  rw [if_neg (hunlast _), if_pos (Place.isAbsolute_path _), split_half, List.cons_append, follow,
    if_pos (.inl rfl), rungs_through, hbottom, List.nil_append]

/-- The way through either link does not stay short. -/
theorem staysShort_shaft : (shaft content).staysShort (links + 2) [] (piece :: rest) = false := by
  obtain ⟨hname, hlink⟩ := @at?_link content piece hpiece
  have hhalf : (shaft content).at? ([] ++ [.ofList "half".toList]) = some (.link (rungs 8).path) :=
    rfl
  have hdeep : (shaft content).staysShort links []
      ((rungs 17).map String.toList ++ rest) = false := by
    refine Bool.eq_false_iff.mpr fun hshort => ?_
    obtain ⟨hbounded, -⟩ := @staysShort_names (shaft content) [] (rungs 17) links
      isEntryName_of_mem_rungs (at?_rungs (Nat.le_refl 17)) rest hshort
    replace hbounded := hbounded (by simp [rungs])
    have hsize : (rungs 17).path.text.utf8ByteSize = 4267 := size_path_rungs 16
    rw [List.nil_append, hsize] at hbounded
    exact absurd hbounded (by decide)
  rw [staysShort_cons hname.spoken hname.notAbove, hlink]
  split
  · rfl
  · dsimp only
    rw [if_pos (Place.isAbsolute_path _), split_bottom, List.cons_append,
      staysShort_of_silent (.inl rfl), List.cons_append, staysShort_cons (by decide) (by decide),
      hhalf]
    split
    · rfl
    · dsimp only
      rw [if_pos (Place.isAbsolute_path _), split_half, List.cons_append,
        staysShort_of_silent (.inl rfl), rungs_through, hdeep]

theorem leads_shaft {spot : Spot}
    (hleads : ∀ links, (shaft content).Leads true links (rungs 17) rest spot) :
    (shaft content).Leads true linkLimit [] ([] :: piece :: rest) spot := by
  refine .silent (.inl rfl) (leads_of_follow ?_)
  rw [linkLimit, follow_shaft hpiece]
  exact (hleads _).follow

end link

end Disk

namespace Machine

/-- The source at the bottom is named through both links. -/
def deepSource : Machine where
  disk := shaft [(["f.cs"], .file .empty false)]
  directory := []
  environment := []

theorem ordinary_deepSource : deepSource.Ordinary where
  directory := rfl
  names := Disk.named_shaft (by decide)

theorem leads_deepSource {piece : List Char} (hpiece : piece = ['a'] ∨ piece = ['b']) :
    deepSource.disk.Leads true linkLimit [] ["".toList, piece, "f.cs".toList]
      (.found (rungs 17 ++ ["f.cs"]) (.file .empty false)) := by
  refine Disk.leads_shaft hpiece fun links => .file (by decide) ?_
  rw [Disk.at?_concat (Disk.at?_rungs (Nat.le_refl 17))]
  exact Disk.noted?_bottom (List.cons_ne_nil _ _)

theorem leadsTo_deepSource :
    deepSource.LeadsTo ⟨"/a/f.cs"⟩ (rungs 17 ++ ["f.cs"]) ∧
    deepSource.LeadsTo ⟨"/b/f.cs"⟩ (rungs 17 ++ ["f.cs"]) :=
  ⟨⟨_, Disk.locate_of_lookup <| Disk.lookup_of_leads ["".toList, ['a'], "f.cs".toList] (by decide)
      rfl (leads_deepSource (.inl rfl))⟩,
    ⟨_, Disk.locate_of_lookup <| Disk.lookup_of_leads ["".toList, ['b'], "f.cs".toList] (by decide)
      rfl (leads_deepSource (.inr rfl))⟩⟩

/-- An absolute path through either link to the last directory is its own identity. -/
theorem identity_of_shaft {m : Machine} {content : List (Place × Entry)}
    (hdisk : m.disk = shaft content) {p : Path} (hp : p.isAbsolute) {piece : List Char}
    (hpiece : piece = ['a'] ∨ piece = ['b']) {rest : List (List Char)}
    (hpieces : Text.split '/' p.text.toList = [] :: piece :: rest) :
    m.staysShort p = false ∧ m.identity p = p := by
  have hlong : m.staysShort p = false := by
    rw [staysShort, Disk.origin, if_pos hp, hpieces, hdisk, Disk.staysShort_of_silent (.inl rfl),
      linkLimit]
    exact Disk.staysShort_shaft hpiece
  obtain ⟨e, hcanonical⟩ := canonical_of_unresolved fun _ _ => hlong
  exact ⟨hlong, identity_of_absolute hcanonical hp⟩

theorem identity_deepSource : deepSource.identity ⟨"/a/f.cs"⟩ = ⟨"/a/f.cs"⟩ ∧
    deepSource.identity ⟨"/b/f.cs"⟩ = ⟨"/b/f.cs"⟩ :=
  ⟨(identity_of_shaft rfl (by decide) (.inl rfl) rfl).2,
    (identity_of_shaft rfl (by decide) (.inr rfl) rfl).2⟩

end Machine

end ScriptAssembly
