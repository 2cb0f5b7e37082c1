import ScriptAssembly.Proofs.Machine.Identity

/-!
# Spellings of one path

Two spellings of one path differ only in pieces that say nothing.  Such pieces matter behind a file,
where a slash asks for a directory, but not on the way to a directory.  So every spelling of a path
to a directory leads there.  Behind a directory whose path is as long as a path may be they make it
too long to be asked for, and then every name there is too long as well.

A path without `..` that passes through no link is a spelling of the path of the place that it leads
to, and there is no other such spelling.
-/

namespace ScriptAssembly

namespace Disk

variable {d : Disk} {here place : Place} {links : Nat} {pieces others : List (List Char)}

theorem Leads.behind_silent {spot : Spot} {through : Bool} (silent : List (List Char))
    (hsilent : ∀ piece ∈ silent, piece = [] ∨ piece = ['.'])
    (hleads : d.Leads through links here pieces spot) :
    d.Leads through links here (silent ++ pieces) spot := by
  induction silent with
  | nil => exact hleads
  | cons piece silent ih =>
      exact .silent (hsilent piece List.mem_cons_self)
        (ih fun other hother => hsilent other (List.mem_cons_of_mem piece hother))

/-- What is said first stands behind silent pieces, and the rest is said behind it. -/
theorem exists_of_spoken_eq_cons {piece : List Char} {rest : List (List Char)}
    (hspoken : Path.spoken others = piece :: rest) :
    ∃ silent behind, others = silent ++ piece :: behind ∧
      (∀ piece ∈ silent, piece = [] ∨ piece = ['.']) ∧ Path.spoken behind = rest := by
  obtain ⟨silent, behind, rfl, hsilent, -, hrest⟩ := List.filter_eq_cons_iff.mp hspoken
  exact ⟨silent, behind, rfl, fun piece hpiece =>
    Path.isSilent_iff.mp (by simpa using hsilent piece hpiece), hrest⟩

/-- The way to a directory does not depend on the pieces that say nothing. -/
theorem Leads.respelled (hleads : d.Leads true links here pieces (.found place .directory))
    (hsame : Path.spoken others = Path.spoken pieces) :
    d.Leads true links here others (.found place .directory) := by
  generalize hspot : Spot.found place .directory = spot at hleads
  induction hleads generalizing others with
  | arrived =>
      refine leads_of_silent _ _ fun piece hpiece => Path.isSilent_iff.mp ?_
      simpa using List.filter_eq_nil_iff.mp hsame piece hpiece
  | silent hsilent _ ih => exact ih (hsame.trans (Path.spoken_cons_of_silent hsilent _)) hspot
  | above _ ih =>
      rw [Path.spoken_cons (by decide)] at hsame
      obtain ⟨silent, behind, rfl, hsilent, hrest⟩ := exists_of_spoken_eq_cons hsame
      exact .behind_silent silent hsilent (.above (ih hrest hspot))
  | vacant => cases hspot
  | directory hname hentry _ ih =>
      rw [Path.spoken_cons hname.spoken] at hsame
      obtain ⟨silent, behind, rfl, hsilent, hrest⟩ := exists_of_spoken_eq_cons hsame
      exact .behind_silent silent hsilent (.directory hname hentry (ih hrest hspot))
  | file => cases hspot
  | link _ _ hlast => cases hlast
  | @linked _ _ _ rest target _ hname hentry _ _ ih =>
      rw [Path.spoken_cons hname.spoken] at hsame
      obtain ⟨silent, behind, rfl, hsilent, hrest⟩ := exists_of_spoken_eq_cons hsame
      have hbehind : Path.spoken (Text.split '/' target.text.toList ++ behind) =
          Path.spoken (Text.split '/' target.text.toList ++ rest) := by
        rw [Path.spoken, Path.spoken, List.filter_append, List.filter_append]
        exact congrArg _ hrest
      exact .behind_silent silent hsilent (.linked hname hentry (by simp) (ih hbehind hspot))

/-- Every spelling of a path to a directory leads there. -/
theorem locate_of_same {p q : Path} (hsame : p.Same q)
    (hlocate : d.locate here true p = .ok (.found place .directory)) :
    d.locate here true q = .ok (.found place .directory) := by
  unfold locate at hlocate ⊢
  split at hlocate
  · cases hlocate
  · rename_i hclean
    rw [if_neg fun hnull => hclean (hsame.mem (by decide) (by decide) hnull)]
    split at hlocate
    · cases hlocate
    · rename_i hwritten
      have hspelt : ¬q.text.isEmpty := by
        intro hempty
        have hq : q = ⟨""⟩ := congrArg Path.mk (String.isEmpty_iff.mp hempty)
        subst hq
        exact hwritten (String.isEmpty_iff.mpr (Path.text_eq_empty_of_components hsame))
      rw [if_neg hspelt, hsame.isAbsolute]
      split at hlocate
      · rename_i habsolute
        rw [if_pos habsolute]
        exact ((leads_of_follow hlocate).respelled hsame.spoken).follow
      · rename_i hrelative
        rw [if_neg hrelative]
        split at hlocate
        · rename_i hhere
          rw [if_pos hhere]
          exact ((leads_of_follow hlocate).respelled hsame.spoken).follow
        · cases hlocate

/-- A directory is asked for by pieces that say nothing, or lead upwards first. -/
theorem asksDirectory_iff : asksDirectory pieces = true ↔
    pieces ≠ [] ∧ ∀ piece ∈ (Path.spoken pieces).head?, piece = ['.', '.'] := by
  induction pieces with
  | nil => exact iff_of_false (by decide) fun hasks => hasks.1 rfl
  | cons piece rest ih =>
      rw [asksDirectory]
      by_cases hsilent : piece = [] ∨ piece = ['.']
      · rw [if_pos hsilent, Path.spoken_cons_of_silent hsilent, Bool.or_eq_true, ih,
          List.isEmpty_iff]
        by_cases hrest : rest = []
        · subst hrest
          simp [Path.spoken]
        · simp [hrest]
      · rw [if_neg hsilent, Path.spoken_cons hsilent]
        simp

theorem staysShort_behind_silent (silent : List (List Char))
    (hsilent : ∀ piece ∈ silent, piece = [] ∨ piece = ['.']) :
    d.staysShort links here (silent ++ pieces) = d.staysShort links here pieces := by
  induction silent with
  | nil => rfl
  | cons piece silent ih =>
      rw [List.cons_append, staysShort_of_silent (hsilent piece List.mem_cons_self)]
      exact ih fun other hother => hsilent other (List.mem_cons_of_mem piece hother)

/-- Where the path of a directory is as long as it may be, a way that goes on with a name there does
not stay short. -/
theorem not_asksDirectory_of_behind {rest more behind : List (List Char)} {piece : List Char}
    (hsame : Path.spoken more = Path.spoken rest) (hpiece : NamesEntry piece) (hhere : here ≠ [])
    (hsize : here.path.text.utf8ByteSize = pathLimit)
    (hunasked : ¬asksDirectory (more ++ piece :: behind))
    (hshort : d.staysShort links here (more ++ piece :: behind)) : ¬asksDirectory rest := by
  intro hasks
  obtain ⟨-, hhead⟩ := asksDirectory_iff.mp hasks
  cases hspoken : Path.spoken rest with
  | cons next _ =>
      refine hunasked (asksDirectory_iff.mpr ⟨by simp, ?_⟩)
      rw [Path.spoken, List.filter_append, ← Path.spoken, hsame]
      rw [hspoken] at hhead ⊢
      exact hhead
  | nil =>
      have hsilent : ∀ piece ∈ more, piece = [] ∨ piece = ['.'] := by
        intro piece hmem
        refine Path.isSilent_iff.mp ?_
        simpa using List.filter_eq_nil_iff.mp (hsame.trans hspoken) piece hmem
      rw [staysShort_behind_silent more hsilent, staysShort_cons hpiece.spoken hpiece.notAbove]
        at hshort
      split at hshort
      · cases hshort
      · have hlonger := size_path_lt hhere (.ofList piece)
        omega

/-- A way to a directory stays short if one by another spelling does that goes on with a name
there. -/
theorem Leads.staysShort_of_behind {piece : List Char} {behind : List (List Char)}
    (hleads : d.Leads true links here pieces (.found place .directory))
    (hsame : Path.spoken others = Path.spoken pieces) (hpiece : NamesEntry piece)
    (hshort : d.staysShort links here (others ++ piece :: behind)) :
    d.staysShort links here pieces := by
  generalize hspot : Spot.found place .directory = spot at hleads
  induction hleads generalizing others with
  | arrived => rw [Disk.staysShort]
  | silent hsilent _ ih =>
      rw [staysShort_of_silent hsilent]
      exact ih (hsame.trans (Path.spoken_cons_of_silent hsilent _)) hshort hspot
  | above _ ih =>
      rw [Path.spoken_cons (by decide)] at hsame
      obtain ⟨silent, rest, rfl, hsilent, hrest⟩ := exists_of_spoken_eq_cons hsame
      rw [List.append_assoc, List.cons_append, staysShort_behind_silent silent hsilent,
        staysShort_above] at hshort
      rw [staysShort_above]
      exact ih hrest hshort hspot
  | vacant => cases hspot
  | directory hname hentry _ ih =>
      rw [Path.spoken_cons hname.spoken] at hsame
      obtain ⟨silent, more, rfl, hsilent, hrest⟩ := exists_of_spoken_eq_cons hsame
      rw [List.append_assoc, List.cons_append, staysShort_behind_silent silent hsilent,
        staysShort_cons hname.spoken hname.notAbove, hentry] at hshort
      rw [staysShort_cons hname.spoken hname.notAbove, hentry]
      split at hshort
      · cases hshort
      · rename_i hbounded
        dsimp only at hshort ⊢
        split at hshort
        · cases hshort
        · rename_i hunasked
          rw [if_neg hbounded, if_neg, ih hrest hshort hspot]
          rintro ⟨hasks, hsize⟩
          exact not_asksDirectory_of_behind hrest hpiece (by simp) hsize
            (fun hother => hunasked ⟨hother, hsize⟩) hshort hasks
  | file => cases hspot
  | link _ _ hlast => cases hlast
  | @linked _ _ _ rest target _ hname hentry _ _ ih =>
      rw [Path.spoken_cons hname.spoken] at hsame
      obtain ⟨silent, more, rfl, hsilent, hrest⟩ := exists_of_spoken_eq_cons hsame
      have hbehind : Path.spoken (Text.split '/' target.text.toList ++ more) =
          Path.spoken (Text.split '/' target.text.toList ++ rest) := by
        rw [Path.spoken, Path.spoken, List.filter_append, List.filter_append]
        exact congrArg _ hrest
      rw [List.append_assoc, List.cons_append, staysShort_behind_silent silent hsilent,
        staysShort_cons hname.spoken hname.notAbove, hentry] at hshort
      rw [staysShort_cons hname.spoken hname.notAbove, hentry]
      split at hshort
      · cases hshort
      · rename_i hbounded
        dsimp only at hshort ⊢
        rw [if_neg hbounded]
        rw [← List.append_assoc] at hshort
        exact ih hbehind hshort hspot

/-- All names by which something can be reached are names of entries. -/
def Named (d : Disk) : Prop :=
  ∀ place entry, d.at? place = some entry → ∀ name ∈ place, IsEntryName name

theorem Named.of_keeps {after : Disk} (hnamed : d.Named) (hback : after.Keeps d) :
    after.Named := by
  intro place entry hentry
  obtain ⟨kept, hkept, -⟩ := hback place entry hentry
  exact hnamed place kept hkept

theorem named_of_entries (hentries : ∀ known ∈ d.entries, ∀ name ∈ known.1, IsEntryName name) :
    d.Named := by
  intro place entry hentry name hname
  have hmem := mem_of_noted? (List.ne_nil_of_mem hname) (noted?_eq_some_of_at? hentry)
  exact hentries _ hmem name hname

end Disk

namespace Path

/-- The path is written as the path of a place. -/
def IsPlaced (p : Path) : Prop := ∃ place : Place, p = place.path ∧ ∀ name ∈ place, IsEntryName name

theorem components_path {place : Place} (hplace : ∀ name ∈ place, IsEntryName name) :
    place.path.components = .root :: place.map .entry := by
  have hlead : place.path.lead = .root := by simpa [isAbsolute] using place.isAbsolute_path
  have hsplit := Place.split_path hplace
  rw [split_of_isAbsolute place.isAbsolute_path, List.cons.injEq] at hsplit
  rw [components, hlead, hsplit.2]
  refine congrArg (Component.root :: ·) ?_
  split
  · rename_i hroot
    subst hroot
    rfl
  · clear hsplit hlead
    induction place with
    | nil => rfl
    | cons name names ih =>
        have hname := (hplace name List.mem_cons_self).named
        have hcomponent : component? name.toList = some (.entry name) := by
          rw [component?, if_neg hname.spoken, if_neg hname.notAbove, String.ofList_toList]
        rw [List.map_cons, List.filterMap_cons_some hcomponent, List.map_cons]
        by_cases hnames : names = []
        · subst hnames
          rfl
        · exact congrArg (_ :: ·)
            (ih (fun other hother => hplace other (List.mem_cons_of_mem name hother)) hnames)

/-- Places whose paths say the same are the same. -/
theorem eq_of_same_path {place other : Place} (hplace : ∀ name ∈ place, IsEntryName name)
    (hother : ∀ name ∈ other, IsEntryName name) (hsame : place.path.Same other.path) :
    place = other := by
  rw [Same, components_path hplace, components_path hother, List.cons.injEq] at hsame
  exact List.map_injective_iff.mpr (fun _ _ hentry => Component.entry.inj hentry) hsame.2

/-- There is one spelling of this kind. -/
theorem IsPlaced.eq_of_same {p q : Path} (hp : p.IsPlaced) (hq : q.IsPlaced) (hsame : p.Same q) :
    p = q := by
  obtain ⟨place, rfl, hplace⟩ := hp
  obtain ⟨other, rfl, hother⟩ := hq
  rw [eq_of_same_path hplace hother hsame]

end Path

/-- The piece that names an entry is the first of the names that it begins. -/
theorem NamesEntry.exists_cons_of_filterMap {piece : List Char} (hname : NamesEntry piece)
    {rest : List (List Char)} {names : Place}
    (hnames : (piece :: rest).filterMap Path.component? = names.map .entry) :
    ∃ others, names = .ofList piece :: others ∧
      rest.filterMap Path.component? = others.map .entry := by
  have hcomponent : Path.component? piece = some (.entry (.ofList piece)) := by
    rw [Path.component?, if_neg hname.spoken, if_neg hname.notAbove]
  rw [List.filterMap_cons_some hcomponent] at hnames
  cases names with
  | nil => cases hnames
  | cons name others =>
      rw [List.map_cons, List.cons.injEq] at hnames
      obtain ⟨hfirst, hothers⟩ := hnames
      cases hfirst
      exact ⟨others, rfl, hothers⟩

namespace Disk

variable {d : Disk} {here place : Place} {links : Nat} {pieces : List (List Char)} {entry : Entry}

/-- On the way along the names there is no link. -/
def Straight (d : Disk) (names : Place) : Prop :=
  ∀ front, front <+: names → ∀ target, d.at? front ≠ some (.link target)

theorem Straight.of_keeps {after : Disk} {names : Place} (hstraight : d.Straight names)
    (hback : after.Keeps d) : after.Straight names :=
  fun front hfront target hlink => hstraight front hfront target (hback.link hlink)

/-- What is no link stands behind directories alone. -/
theorem straight_of_at? (hentry : d.at? place = some entry)
    (hlink : ∀ target, entry ≠ .link target) : d.Straight place := by
  intro front hfront target hfound
  by_cases hwhole : front = place
  · subst hwhole
    rw [hentry] at hfound
    exact hlink target (Option.some.inj hfound)
  · rw [at?_eq_directory_of_below hfront hwhole hentry] at hfound
    cases hfound

/-- The path is absolute, says only names, and passes through no link. -/
def GoesStraight (d : Disk) (p : Path) : Prop :=
  ∃ names : Place, p.components = .root :: names.map .entry ∧ d.Straight names

/-- Names lead to their place if there is no link on the way. -/
theorem Leads.place_of_straight {names : Place}
    (hleads : d.Leads true links here pieces (.found place entry))
    (hnames : pieces.filterMap Path.component? = names.map .entry)
    (hstraight : d.Straight (here ++ names)) : place = here ++ names := by
  generalize hspot : Spot.found place entry = spot at hleads
  induction hleads generalizing names with
  | arrived =>
      cases hspot
      obtain rfl : names = [] := by simpa using hnames.symm
      exact (List.append_nil _).symm
  | silent hsilent _ ih =>
      refine ih ?_ hstraight hspot
      rw [← hnames, List.filterMap_cons_none]
      rw [Path.component?, if_pos hsilent]
  | above =>
      have hparent : Path.component? ['.', '.'] = some .parent := rfl
      rw [List.filterMap_cons_some hparent] at hnames
      cases names <;> cases hnames
  | vacant => cases hspot
  | link _ _ hlast => cases hlast
  | @directory _ _ piece _ _ hname hentry _ ih =>
      obtain ⟨others, rfl, hothers⟩ := hname.exists_cons_of_filterMap hnames
      rw [List.append_cons] at hstraight ⊢
      exact ih hothers hstraight hspot
  | @file _ _ piece _ _ hname hentry =>
      cases hspot
      obtain ⟨others, rfl, hothers⟩ := hname.exists_cons_of_filterMap hnames
      obtain rfl : others = [] := by simpa using hothers.symm
      rfl
  | @linked _ _ piece _ target _ hname hentry _ _ ih =>
      obtain ⟨others, rfl, -⟩ := hname.exists_cons_of_filterMap hnames
      rw [List.append_cons] at hstraight
      exact absurd hentry (hstraight _ (List.prefix_append _ others) target)

/-- A path goes straight exactly if it is a spelling of the path of its place. -/
theorem goesStraight_iff (hnamed : d.Named) {p : Path} (hp : p.isAbsolute)
    (hlocate : d.locate here true p = .ok (.found place entry)) :
    d.GoesStraight p ↔ p.Same place.path := by
  obtain ⟨hstands, hlink⟩ := stands_of_locate hlocate
  have hcomponents := Path.components_path (hnamed place entry hstands)
  constructor
  · rintro ⟨names, hnames, hstraight⟩
    obtain ⟨-, -, -, hleads⟩ := locate_eq_ok_iff.mp hlocate
    rw [origin, if_pos hp, Path.split_of_isAbsolute hp] at hleads
    have hspoken := hnames
    rw [Path.components_of_isAbsolute hp, List.cons.injEq] at hspoken
    have hplace := hleads.place_of_straight hspoken.2 hstraight
    rw [List.nil_append] at hplace
    rw [Path.Same, hnames, hcomponents, hplace]
  · intro hsame
    exact ⟨place, Eq.trans hsame hcomponents, straight_of_at? hstands hlink⟩

/-- No spelling of the path of a vacant place leads anywhere if there is no link on the way. -/
theorem locate_ne_of_vacant (hnamed : d.Named) {names : Place} {p : Path}
    (hnames : ∀ name ∈ names, IsEntryName name) (hstraight : d.Straight names)
    (hvacant : d.at? names = none) (hsame : p.Same names.path) :
    d.locate here true p ≠ .ok (.found place entry) := by
  intro hlocate
  have hp : p.isAbsolute := by
    rw [← hsame.isAbsolute]
    exact names.isAbsolute_path
  have hstands := (stands_of_locate hlocate).1
  have hstraight : d.GoesStraight p :=
    ⟨names, Eq.trans hsame (Path.components_path hnames), hstraight⟩
  have hplace := (goesStraight_iff hnamed hp hlocate).mp hstraight
  obtain rfl : names = place :=
    Path.eq_of_same_path hnames (hnamed place entry hstands) (hsame.symm.trans hplace)
  cases hvacant.symm.trans hstands

end Disk

namespace Machine

variable {m : Machine} {p q : Path} {place : Place}

theorem LeadsTo.names (hleads : m.LeadsTo p place) (hnamed : m.disk.Named) :
    ∀ name ∈ place, IsEntryName name := by
  obtain ⟨entry, hlocate⟩ := hleads
  exact hnamed place entry (Disk.stands_of_locate hlocate).1

theorem isPlaced_identity (hnamed : m.disk.Named) (hleads : m.LeadsTo p place)
    (hshort : m.staysShort p) : (m.identity p).IsPlaced := by
  rw [identity_of_leadsTo hleads hshort]
  exact ⟨place, rfl, hleads.names hnamed⟩

/-- An absolute path to an entry is a spelling of its identity exactly if it goes straight there, or
is not resolved. -/
theorem same_identity_self_iff (hnamed : m.disk.Named) (hp : p.isAbsolute)
    (hleads : m.LeadsTo p place) :
    p.Same (m.identity p) ↔ (m.staysShort p → m.disk.GoesStraight p) := by
  obtain ⟨entry, hlocate⟩ := id hleads
  cases hshort : m.staysShort p with
  | true =>
      rw [identity_of_leadsTo hleads hshort, Disk.goesStraight_iff hnamed hp hlocate]
      exact ⟨fun hsame _ => hsame, fun hsame => hsame rfl⟩
  | false =>
      obtain ⟨e, hcanonical⟩ := canonical_of_unresolved fun _ _ => hshort
      rw [identity_of_absolute hcanonical hp]
      exact iff_of_true rfl nofun

theorem staysShort_of_leadsTo (hshort : m.disk.Short) (hleads : m.LeadsTo p place) :
    m.staysShort p := by
  obtain ⟨entry, hlocate⟩ := hleads
  exact staysShort_of_locate hshort hlocate

/-- Where all paths are short, every path that exists is resolved. -/
theorem resolves_of_short (hshort : m.disk.Short) (p : Path) : m.Resolves p :=
  fun _ hleads => staysShort_of_leadsTo hshort hleads

theorem leadsTo_of_isFile (hfile : m.isFile p) : ∃ place, m.LeadsTo p place := by
  obtain ⟨place, content, executable, hfind⟩ := find_of_isFile hfile
  exact ⟨place, _, locate_of_find hfind⟩

/-- A path that is not resolved is kept as it is, or behind the path of the working directory. -/
theorem identity_cases {e : IoError} (hcanonical : m.canonical p = .error e) :
    m.identity p = p ∨ (p.isAbsolute = false ∧ m.disk.at? m.directory = some .directory ∧
      m.identity p = m.directory.path.join p) := by
  rw [identity, hcanonical]
  dsimp only
  cases habsolute : p.isAbsolute with
  | true => exact .inl rfl
  | false =>
      by_cases hstands : m.disk.isDirectoryAt m.directory = true
      · rw [workingDirectory, if_pos hstands]
        exact .inr ⟨rfl, Disk.isDirectoryAt_iff.mp hstands, rfl⟩
      · rw [workingDirectory, if_neg hstands]
        exact .inl rfl

/-- The identity of a path, unless the path is empty, leads where the path leads. -/
theorem locate_identity (hnamed : m.disk.Named) (hwritten : p.text ≠ "") :
    m.disk.locate m.directory true (m.identity p) = m.disk.locate m.directory true p := by
  cases hcanonical : m.canonical p with
  | ok known =>
      obtain ⟨-, place, entry, hlocate, rfl⟩ := canonical_eq_ok_iff.mp hcanonical
      obtain ⟨hentry, hlink⟩ := Disk.stands_of_locate hlocate
      rw [identity, hcanonical]
      dsimp only
      rw [Disk.locate_path (hnamed place entry hentry) hentry hlink, hlocate]
  | error e =>
      rcases identity_cases hcanonical with hkept | ⟨hrelative, hdirectory, hjoined⟩
      · rw [hkept]
      · rw [hjoined, Disk.locate_join (hnamed _ _ hdirectory) hdirectory hrelative hwritten]

/-- What the identity of a path leads to, unless the path is empty, the path leads to. -/
theorem locate_of_find_identity (hnamed : m.disk.Named) (hwritten : p.text ≠ "")
    {entry : Entry} (hfind : m.find (m.identity p) = .ok (.found place entry)) :
    m.disk.locate m.directory true p = .ok (.found place entry) := by
  rw [← locate_identity hnamed hwritten]
  exact locate_of_find hfind

end Machine

end ScriptAssembly
