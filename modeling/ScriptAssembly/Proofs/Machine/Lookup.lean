import ScriptAssembly.Machine.Lookup
import ScriptAssembly.Proofs.Machine.Disk
import ScriptAssembly.Proofs.Path

/-!
# Where paths lead

`Leads` is the relation that a successful lookup computes, one rule for each way of taking up a
piece of a path.  By induction on its derivations a spot tells what stands on the disk, a path keeps
leading to its place while directories and links are kept, and the path of an entry passes through
the directory of the path in front of its last name.  Behind and beside a path that leads somewhere
a name leads where it leads in that directory.
-/

namespace ScriptAssembly

/-- The piece is the name of an entry. -/
structure NamesEntry (piece : List Char) : Prop where
  /-- It is neither empty nor a dot. -/
  spoken : ¬(piece = [] ∨ piece = ['.'])
  /-- It does not lead upwards. -/
  notAbove : piece ≠ ['.', '.']
  /-- A directory can hold it. -/
  short : ¬nameLimit < (String.ofList piece).utf8ByteSize

instance (piece : List Char) : Decidable (NamesEntry piece) :=
  decidable_of_iff (¬(piece = [] ∨ piece = ['.']) ∧ piece ≠ ['.', '.'] ∧
      ¬nameLimit < (String.ofList piece).utf8ByteSize)
    ⟨fun ⟨hspoken, hnotAbove, hshort⟩ => ⟨hspoken, hnotAbove, hshort⟩,
      fun ⟨hspoken, hnotAbove, hshort⟩ => ⟨hspoken, hnotAbove, hshort⟩⟩

/-- What a spot tells of the disk it was found on. -/
def Spot.Stands (d : Disk) : Spot → Prop
  | .found place entry => d.at? place = some entry
  | .vacant place _ => d.at? place = none ∧
      ∃ parent name, place = parent ++ [name] ∧ d.at? parent = some .directory

namespace Disk

/-- The pieces of a path lead from the directory `here` to the spot. -/
inductive Leads (d : Disk) (through : Bool) : Nat → Place → List (List Char) → Spot → Prop
  | arrived {links here} : Leads d through links here [] (.found here .directory)
  | silent {links here piece rest spot} (hsilent : piece = [] ∨ piece = ['.'])
      (hrest : Leads d through links here rest spot) :
      Leads d through links here (piece :: rest) spot
  | above {links here rest spot} (hrest : Leads d through links here.dropLast rest spot) :
      Leads d through links here (['.', '.'] :: rest) spot
  | vacant {links here piece rest} (hname : NamesEntry piece)
      (hentry : d.at? (here ++ [.ofList piece]) = none) (hrest : rest.all List.isEmpty) :
      Leads d through links here (piece :: rest)
        (.vacant (here ++ [.ofList piece]) (!rest.isEmpty))
  | directory {links here piece rest spot} (hname : NamesEntry piece)
      (hentry : d.at? (here ++ [.ofList piece]) = some .directory)
      (hrest : Leads d through links (here ++ [.ofList piece]) rest spot) :
      Leads d through links here (piece :: rest) spot
  | file {links here piece content executable} (hname : NamesEntry piece)
      (hentry : d.at? (here ++ [.ofList piece]) = some (.file content executable)) :
      Leads d through links here [piece]
        (.found (here ++ [.ofList piece]) (.file content executable))
  | link {links here piece target} (hname : NamesEntry piece)
      (hentry : d.at? (here ++ [.ofList piece]) = some (.link target)) (hlast : through = false) :
      Leads d through links here [piece] (.found (here ++ [.ofList piece]) (.link target))
  | linked {links here piece rest target spot} (hname : NamesEntry piece)
      (hentry : d.at? (here ++ [.ofList piece]) = some (.link target))
      (hfollowed : (rest.isEmpty && !through) = false)
      (hrest : Leads d through links (if target.isAbsolute then [] else here)
        (Text.split '/' target.text.toList ++ rest) spot) :
      Leads d through (links + 1) here (piece :: rest) spot

variable {d after : Disk} {through : Bool} {links : Nat} {here : Place}
  {pieces : List (List Char)} {spot : Spot} {place : Place} {entry : Entry}

theorem follow_of_namesEntry {piece : List Char} {rest : List (List Char)}
    (hname : NamesEntry piece) :
    d.follow through links here (piece :: rest) =
      match d.at? (here ++ [.ofList piece]) with
      | none =>
        if rest.all List.isEmpty then .ok (.vacant (here ++ [.ofList piece]) (!rest.isEmpty))
        else .error .notFound
      | some .directory => d.follow through links (here ++ [.ofList piece]) rest
      | some (.file content executable) =>
        if rest.isEmpty then .ok (.found (here ++ [.ofList piece]) (.file content executable))
        else .error .notDirectory
      | some (.link target) =>
        if rest.isEmpty && !through then .ok (.found (here ++ [.ofList piece]) (.link target))
        else
          match links with
          | 0 => .error .linkLoop
          | links + 1 =>
            d.follow through links (if target.isAbsolute then [] else here)
              (Text.split '/' target.text.toList ++ rest) := by
  rw [follow]
  exact (if_neg hname.spoken).trans ((if_neg hname.notAbove).trans (if_neg hname.short))

theorem leads_of_follow (hfollow : d.follow through links here pieces = .ok spot) :
    d.Leads through links here pieces spot := by
  induction links, here, pieces using follow.induct d through with
  | case1 links here =>
      rw [follow] at hfollow
      cases hfollow
      exact .arrived
  | case2 links here piece rest hsilent ih =>
      rw [follow, if_pos hsilent] at hfollow
      exact .silent hsilent (ih hfollow)
  | case3 links here rest hspoken ih =>
      rw [follow, if_neg hspoken, if_pos rfl] at hfollow
      exact .above (ih hfollow)
  | case4 links here piece rest hspoken hnotAbove hlong =>
      rw [follow, if_neg hspoken, if_neg hnotAbove, if_pos hlong] at hfollow
      cases hfollow
  | case5 links here piece rest hspoken hnotAbove hshort place hentry hrest =>
      have hname : NamesEntry piece := ⟨hspoken, hnotAbove, hshort⟩
      simp only [follow_of_namesEntry hname, place, hentry, hrest, if_true] at hfollow
      cases hfollow
      exact .vacant hname hentry hrest
  | case6 links here piece rest hspoken hnotAbove hshort place hentry hrest =>
      have hname : NamesEntry piece := ⟨hspoken, hnotAbove, hshort⟩
      simp only [follow_of_namesEntry hname, place, hentry, hrest] at hfollow
      cases hfollow
  | case7 links here piece rest hspoken hnotAbove hshort place hentry ih =>
      have hname : NamesEntry piece := ⟨hspoken, hnotAbove, hshort⟩
      simp only [follow_of_namesEntry hname, place, hentry] at hfollow
      exact .directory hname hentry (ih hfollow)
  | case8 links here piece rest hspoken hnotAbove hshort place content executable hentry hrest =>
      have hname : NamesEntry piece := ⟨hspoken, hnotAbove, hshort⟩
      simp only [follow_of_namesEntry hname, place, hentry, hrest, if_true] at hfollow
      cases hfollow
      rw [List.isEmpty_iff.mp hrest]
      exact .file hname hentry
  | case9 links here piece rest hspoken hnotAbove hshort place content executable hentry hrest =>
      have hname : NamesEntry piece := ⟨hspoken, hnotAbove, hshort⟩
      simp only [follow_of_namesEntry hname, place, hentry, hrest] at hfollow
      cases hfollow
  | case10 links here piece rest hspoken hnotAbove hshort place target hentry hlast =>
      have hname : NamesEntry piece := ⟨hspoken, hnotAbove, hshort⟩
      simp only [follow_of_namesEntry hname, place, hentry, hlast, if_true] at hfollow
      cases hfollow
      rw [Bool.and_eq_true, List.isEmpty_iff, Bool.not_eq_true'] at hlast
      rw [hlast.1]
      exact .link hname hentry hlast.2
  | case11 here piece rest hspoken hnotAbove hshort place target hentry hlast =>
      have hname : NamesEntry piece := ⟨hspoken, hnotAbove, hshort⟩
      simp only [follow_of_namesEntry hname, place, hentry, hlast] at hfollow
      cases hfollow
  | case12 here piece rest hspoken hnotAbove hshort place target hentry hlast links ih =>
      have hname : NamesEntry piece := ⟨hspoken, hnotAbove, hshort⟩
      simp only [follow_of_namesEntry hname, place, hentry, hlast] at hfollow
      exact .linked hname hentry (by simpa using hlast) (ih hfollow)

theorem Leads.follow (hleads : d.Leads through links here pieces spot) :
    d.follow through links here pieces = .ok spot := by
  induction hleads with
  | arrived => rw [Disk.follow]
  | silent hsilent _ ih => rw [Disk.follow, if_pos hsilent, ih]
  | above _ ih => rw [Disk.follow, if_neg (by decide), if_pos rfl, ih]
  | vacant hname hentry hrest => simp only [follow_of_namesEntry hname, hentry, hrest, if_true]
  | directory hname hentry _ ih => simp only [follow_of_namesEntry hname, hentry, ih]
  | file hname hentry =>
      simp only [follow_of_namesEntry hname, hentry]
      rfl
  | link hname hentry hlast =>
      simp only [follow_of_namesEntry hname, hentry, hlast]
      rfl
  | linked hname hentry hfollowed _ ih =>
      simp only [follow_of_namesEntry hname, hentry, hfollowed]
      exact ih

/-- The spot that a lookup reaches stands on the disk. -/
theorem Leads.stands (hleads : d.Leads through links here pieces spot)
    (hhere : d.at? here = some .directory) : spot.Stands d := by
  induction hleads with
  | arrived => exact hhere
  | silent _ _ ih => exact ih hhere
  | above _ ih => exact ih (at?_eq_directory_dropLast hhere)
  | vacant _ hentry _ => exact ⟨hentry, _, _, rfl, hhere⟩
  | directory _ hentry _ ih => exact ih hentry
  | file _ hentry => exact hentry
  | link _ hentry _ => exact hentry
  | @linked _ _ _ _ target _ _ _ _ _ ih =>
      apply ih
      by_cases habsolute : target.isAbsolute
      · rw [if_pos habsolute, at?_root]
      · rw [if_neg habsolute, hhere]

theorem Keeps.directory (hkeeps : d.Keeps after) (hplace : d.at? place = some .directory) :
    after.at? place = some .directory := by
  obtain ⟨kept, hkept, rfl | ⟨-, hfile⟩⟩ := hkeeps place .directory hplace
  · exact hkept
  · cases hfile

theorem Keeps.link {target : Path} (hkeeps : d.Keeps after)
    (hplace : d.at? place = some (.link target)) : after.at? place = some (.link target) := by
  obtain ⟨kept, hkept, rfl | ⟨-, hfile⟩⟩ := hkeeps place (.link target) hplace
  · exact hkept
  · cases hfile

theorem Keeps.ways (hkeeps : d.Keeps after) : d.KeepsWays after := by
  intro place entry hentry hway
  obtain ⟨kept, hkept, rfl | ⟨-, hfile⟩⟩ := hkeeps place entry hentry
  · exact hkept
  · rw [hway] at hfile
    cases hfile

/-- What remains where an entry stood: an entry of the same kind, or the vacant place. -/
inductive Remains (after : Disk) (place : Place) (entry : Entry) : Spot → Prop
  | kept {other} (hkept : after.at? place = some other) (hkind : other.isFile = entry.isFile) :
      Remains after place entry (.found place other)
  | gone (hgone : after.at? place = none) : Remains after place entry (.vacant place false)

/-- While the ways are kept a path leads to what remains at the place that it led to. -/
theorem Leads.of_ways (hleads : d.Leads through links here pieces (.found place entry))
    (hways : d.KeepsWays after) (hhere : d.at? here = some .directory) {next : Spot}
    (hremains : after.Remains place entry next) : after.Leads through links here pieces next := by
  generalize hspot : Spot.found place entry = spot at hleads
  induction hleads with
  | arrived =>
      cases hspot
      have hdirectory := hways _ _ hhere rfl
      cases hremains with
      | kept hkept =>
          cases hdirectory.symm.trans hkept
          exact .arrived
      | gone hgone => cases hdirectory.symm.trans hgone
  | silent hsilent _ ih => exact .silent hsilent (ih hhere hspot)
  | above _ ih => exact .above (ih (at?_eq_directory_dropLast hhere) hspot)
  | vacant => cases hspot
  | directory hname hentry _ ih =>
      exact .directory hname (hways _ _ hentry rfl) (ih hentry hspot)
  | file hname hentry =>
      cases hspot
      cases hremains with
      | @kept other hkept hkind =>
          cases other with
          | file => exact .file hname hkept
          | directory => cases hkind
          | link => cases hkind
      | gone hgone => exact .vacant hname hgone rfl
  | link hname hentry hlast =>
      cases hspot
      have hlink := hways _ _ hentry rfl
      cases hremains with
      | kept hkept =>
          cases hlink.symm.trans hkept
          exact .link hname hlink hlast
      | gone hgone => cases hlink.symm.trans hgone
  | @linked _ _ _ _ target _ hname hentry hfollowed _ ih =>
      refine .linked hname (hways _ _ hentry rfl) hfollowed (ih ?_ hspot)
      by_cases habsolute : target.isAbsolute
      · rw [if_pos habsolute, at?_root]
      · rw [if_neg habsolute, hhere]

/-- A path goes on leading to an entry that is kept. -/
theorem Leads.found_of_keeps (hleads : d.Leads through links here pieces (.found place entry))
    (hkeeps : d.Keeps after) {kept : Entry} (hhere : d.at? here = some .directory)
    (hkept : after.at? place = some kept) :
    after.Leads through links here pieces (.found place kept) := by
  obtain ⟨same, hsame, hkind⟩ := hkeeps place entry (hleads.stands hhere)
  obtain rfl : same = kept := Option.some.inj (hsame.symm.trans hkept)
  refine hleads.of_ways hkeeps.ways hhere (.kept hkept ?_)
  rcases hkind with rfl | ⟨hfile, hother⟩
  · rfl
  · rw [hfile, hother]

/-- A path that led to a vacant place leads to the file put there. -/
theorem Leads.found_of_vacant (hleads : d.Leads through links here pieces (.vacant place false))
    (hkeeps : d.Keeps after)
    {content : ByteArray} {executable : Bool}
    (hplace : after.at? place = some (.file content executable)) :
    after.Leads through links here pieces (.found place (.file content executable)) := by
  generalize hspot : Spot.vacant place false = spot at hleads
  induction hleads with
  | arrived => cases hspot
  | silent hsilent _ ih => exact .silent hsilent (ih hspot)
  | above _ ih => exact .above (ih hspot)
  | @vacant _ _ _ rest hname _ _ =>
      injection hspot with hsame hslash
      have hrest : rest = [] := by simpa using hslash.symm
      subst hsame hrest
      exact .file hname hplace
  | directory hname hentry _ ih => exact .directory hname (hkeeps.directory hentry) (ih hspot)
  | file => cases hspot
  | link => cases hspot
  | linked hname hentry hfollowed _ ih =>
      exact .linked hname (hkeeps.link hentry) hfollowed (ih hspot)

/-- Slashes and dots behind a directory lead no further. -/
theorem leads_of_silent (links : Nat) (here : Place)
    (hsilent : ∀ piece ∈ pieces, piece = [] ∨ piece = ['.']) :
    d.Leads through links here pieces (.found here .directory) := by
  induction pieces with
  | nil => exact .arrived
  | cons piece rest ih =>
      exact .silent (hsilent piece List.mem_cons_self)
        (ih fun other hother => hsilent other (List.mem_cons_of_mem piece hother))

/-- A path that led to a vacant place goes on leading there: the place is still vacant, or a
directory stands there. -/
theorem Leads.vacant_of_keeps {slashed : Bool}
    (hleads : d.Leads through links here pieces (.vacant place slashed)) (hkeeps : d.Keeps after)
    {next : Spot} (hnext : (after.at? place = none ∧ next = .vacant place slashed) ∨
      (after.at? place = some .directory ∧ next = .found place .directory)) :
    after.Leads through links here pieces next := by
  generalize hspot : Spot.vacant place slashed = spot at hleads
  induction hleads with
  | arrived => cases hspot
  | silent hsilent _ ih => exact .silent hsilent (ih hspot)
  | above _ ih => exact .above (ih hspot)
  | vacant hname _ hrest =>
      cases hspot
      rcases hnext with ⟨hvacant, rfl⟩ | ⟨hdirectory, rfl⟩
      · exact .vacant hname hvacant hrest
      · refine .directory hname hdirectory (leads_of_silent _ _ fun piece hpiece => .inl ?_)
        exact List.isEmpty_iff.mp (List.all_eq_true.mp hrest piece hpiece)
  | directory hname hentry _ ih => exact .directory hname (hkeeps.directory hentry) (ih hspot)
  | file => cases hspot
  | link => cases hspot
  | linked hname hentry hfollowed _ ih =>
      exact .linked hname (hkeeps.link hentry) hfollowed (ih hspot)

/-- The pieces of a path lead to one spot. -/
theorem Leads.unique {other : Spot} (hleads : d.Leads through links here pieces spot)
    (hother : d.Leads through links here pieces other) : spot = other :=
  Except.ok.inj (hleads.follow.symm.trans hother.follow)

/-- In front of pieces that are not all empty the path leads to a directory. -/
theorem Leads.front {behind : List (List Char)} (hbehind : behind.all List.isEmpty = false)
    (hleads : d.Leads through links here (pieces ++ behind) spot) :
    ∃ directory, d.Leads true links here pieces (.found directory .directory) := by
  generalize hpieces : pieces ++ behind = whole at hleads
  induction hleads generalizing pieces with
  | arrived =>
      obtain ⟨rfl, -⟩ := List.append_eq_nil_iff.mp hpieces
      exact ⟨_, .arrived⟩
  | silent hsilent _ ih =>
      obtain ⟨rfl, -⟩ | ⟨others, rfl, rfl⟩ := List.append_eq_cons_iff.mp hpieces
      · exact ⟨_, .arrived⟩
      · obtain ⟨directory, hfront⟩ := ih rfl
        exact ⟨directory, .silent hsilent hfront⟩
  | above _ ih =>
      obtain ⟨rfl, -⟩ | ⟨others, rfl, rfl⟩ := List.append_eq_cons_iff.mp hpieces
      · exact ⟨_, .arrived⟩
      · obtain ⟨directory, hfront⟩ := ih rfl
        exact ⟨directory, .above hfront⟩
  | vacant _ _ hrest =>
      obtain ⟨rfl, -⟩ | ⟨others, rfl, rfl⟩ := List.append_eq_cons_iff.mp hpieces
      · exact ⟨_, .arrived⟩
      · simp [hbehind] at hrest
  | directory hnamed hentry _ ih =>
      obtain ⟨rfl, -⟩ | ⟨others, rfl, rfl⟩ := List.append_eq_cons_iff.mp hpieces
      · exact ⟨_, .arrived⟩
      · obtain ⟨directory, hfront⟩ := ih rfl
        exact ⟨directory, .directory hnamed hentry hfront⟩
  | file | link =>
      -- Nothing comes behind the piece, so the pieces in front end before it.
      obtain ⟨rfl, -⟩ | ⟨others, -, hothers⟩ := List.append_eq_cons_iff.mp hpieces
      · exact ⟨_, .arrived⟩
      · rw [(List.append_eq_nil_iff.mp hothers.symm).2] at hbehind
        cases hbehind
  | linked hnamed hentry _ _ ih =>
      obtain ⟨rfl, -⟩ | ⟨others, rfl, rfl⟩ := List.append_eq_cons_iff.mp hpieces
      · exact ⟨_, .arrived⟩
      · obtain ⟨directory, hfront⟩ := ih (List.append_assoc _ others behind)
        exact ⟨directory, .linked hnamed hentry (by simp) hfront⟩

/-- Behind a path to a directory the pieces lead where they lead from that directory. -/
theorem Leads.behind {directory : Place} {behind : List (List Char)} (hbehind : behind ≠ [])
    (hfront : d.Leads true links here pieces (.found directory .directory))
    (hleads : ∀ links, d.Leads through links directory behind spot) :
    d.Leads through links here (pieces ++ behind) spot := by
  generalize hspot : Spot.found directory .directory = front at hfront
  induction hfront with
  | arrived =>
      cases hspot
      exact hleads _
  | silent hsilent _ ih => exact .silent hsilent (ih hspot)
  | above _ ih => exact .above (ih hspot)
  | vacant => cases hspot
  | directory hname hentry _ ih => exact .directory hname hentry (ih hspot)
  | file => cases hspot
  | link _ _ hlast => cases hlast
  | linked hname hentry _ _ ih =>
      refine .linked hname hentry (by simp [hbehind]) ?_
      exact List.append_assoc _ _ behind ▸ ih hspot

/-- Pieces that go on behind a place where nothing stands lead nowhere. -/
theorem Leads.follow_behind_vacant {slashed : Bool} {behind : List (List Char)}
    (hfront : d.Leads through links here pieces (.vacant place slashed))
    (hbehind : behind.all List.isEmpty = false) :
    d.follow through links here (pieces ++ behind) = .error .notFound := by
  generalize hspot : Spot.vacant place slashed = spot at hfront
  induction hfront with
  | arrived => cases hspot
  | silent hsilent _ ih => rw [List.cons_append, Disk.follow, if_pos hsilent, ih hspot]
  | above _ ih => rw [List.cons_append, Disk.follow, if_neg (by decide), if_pos rfl, ih hspot]
  | vacant hname hentry _ =>
      rw [List.cons_append, follow_of_namesEntry hname]
      simp only [hentry, List.all_append, hbehind, Bool.and_false, Bool.false_eq_true, if_false]
  | directory hname hentry _ ih =>
      rw [List.cons_append, follow_of_namesEntry hname]
      simp only [hentry, ih hspot]
  | file => cases hspot
  | link => cases hspot
  | @linked _ _ _ rest _ _ hname hentry _ _ ih =>
      have hrest : rest ++ behind ≠ [] := by
        intro hnone
        rw [(List.append_eq_nil_iff.mp hnone).2] at hbehind
        cases hbehind
      have hfollow := ih hspot
      rw [List.append_assoc] at hfollow
      rw [List.cons_append, follow_of_namesEntry hname]
      simp only [hentry, List.isEmpty_eq_false_iff.mpr hrest, Bool.false_and, Bool.false_eq_true,
        if_false, hfollow]

/-- A name in a directory leads somewhere if a link of that name is left. -/
theorem exists_leads_name {name : List Char} (hname : NamesEntry name) (directory : Place) :
    ∃ spot, ∀ links, d.Leads false links directory [name] spot := by
  rcases hentry : d.at? (directory ++ [.ofList name]) with - | - | ⟨content, executable⟩ | target
  · exact ⟨_, fun _ => .vacant hname hentry rfl⟩
  · exact ⟨_, fun _ => .directory hname hentry .arrived⟩
  · exact ⟨_, fun _ => .file hname hentry⟩
  · exact ⟨_, fun _ => .link hname hentry rfl⟩

/-- What is reached through all links is reached, or a link to it, when the last one is left. -/
theorem Leads.found_unfollowed (hleads : d.Leads true links here pieces (.found place entry)) :
    ∃ place entry, d.Leads false links here pieces (.found place entry) := by
  generalize hspot : Spot.found place entry = spot at hleads
  induction hleads with
  | arrived => exact ⟨_, _, .arrived⟩
  | silent hsilent _ ih =>
      obtain ⟨place, entry, hrest⟩ := ih hspot
      exact ⟨place, entry, .silent hsilent hrest⟩
  | above _ ih =>
      obtain ⟨place, entry, hrest⟩ := ih hspot
      exact ⟨place, entry, .above hrest⟩
  | vacant => cases hspot
  | directory hname hentry _ ih =>
      obtain ⟨place, entry, hrest⟩ := ih hspot
      exact ⟨place, entry, .directory hname hentry hrest⟩
  | file hname hentry => exact ⟨_, _, .file hname hentry⟩
  | link _ _ hlast => cases hlast
  | @linked links here piece rest target spot hname hentry _ _ ih =>
      by_cases hrest : rest = []
      · subst hrest
        exact ⟨_, _, .link hname hentry rfl⟩
      · obtain ⟨place, entry, hleads⟩ := ih hspot
        exact ⟨place, entry, .linked hname hentry (by simp [hrest]) hleads⟩

/-- The path can be looked up from the directory `here`. -/
structure Admits (d : Disk) (here : Place) (p : Path) : Prop where
  /-- It is not too long. -/
  bounded : p.text.utf8ByteSize ≤ pathLimit
  /-- No null character is in it. -/
  clean : '\x00' ∉ p.text.toList
  /-- It is not empty. -/
  written : p.text.isEmpty = false
  /-- It is read from a directory that is there. -/
  rooted : d.at? (origin here p) = some .directory

/-- A path of any length leads where its pieces lead. -/
theorem locate_eq_ok_iff {p : Path} :
    d.locate here through p = .ok spot ↔
      '\x00' ∉ p.text.toList ∧ p.text.isEmpty = false ∧
      d.at? (origin here p) = some .directory ∧
      d.Leads through linkLimit (origin here p) (Text.split '/' p.text.toList) spot := by
  unfold locate origin
  by_cases hnull : '\x00' ∈ p.text.toList
  · simp [hnull]
  · cases hempty : p.text.isEmpty with
    | true => simp [hnull]
    | false =>
        have hfollow : ∀ start pieces, d.follow through linkLimit start pieces = .ok spot ↔
            d.Leads through linkLimit start pieces spot := fun _ _ => ⟨leads_of_follow, Leads.follow⟩
        by_cases habsolute : p.isAbsolute
        · simp [hnull, habsolute, hfollow]
        · by_cases hhere : d.isDirectoryAt here
          · simp [hnull, habsolute, hhere, isDirectoryAt_iff.mp hhere, hfollow]
          · simp [hnull, habsolute, hhere, mt isDirectoryAt_iff.mpr hhere]

/-- An absolute path is looked up without regard to a directory. -/
theorem locate_of_isAbsolute (d : Disk) {p : Path} (hp : p.isAbsolute) (here other : Place)
    (through : Bool) : d.locate here through p = d.locate other through p := by
  unfold locate
  rw [if_pos hp, if_pos hp]

theorem lookup_of_isAbsolute (d : Disk) {p : Path} (hp : p.isAbsolute) (here other : Place)
    (through : Bool) : d.lookup here through p = d.lookup other through p := by
  unfold lookup
  rw [d.locate_of_isAbsolute hp here other]

/-- While the ways are kept a path of any length leads to what remains at its place. -/
theorem locate_of_ways {p : Path} (hlocate : d.locate here through p = .ok (.found place entry))
    (hways : d.KeepsWays after) {next : Spot} (hremains : after.Remains place entry next) :
    after.locate here through p = .ok next := by
  obtain ⟨hclean, hwritten, hrooted, hleads⟩ := locate_eq_ok_iff.mp hlocate
  exact locate_eq_ok_iff.mpr
    ⟨hclean, hwritten, hways _ _ hrooted rfl, hleads.of_ways hways hrooted hremains⟩

/-- A path is looked up if it is not too long. -/
theorem lookup_eq_ok_iff_locate {p : Path} :
    d.lookup here through p = .ok spot ↔
      p.text.utf8ByteSize ≤ pathLimit ∧ d.locate here through p = .ok spot := by
  unfold lookup
  split
  · rename_i hlong
    simp [Nat.not_le.mpr hlong.1]
  · rename_i hbound
    constructor
    · intro hlocate
      have hclean := (locate_eq_ok_iff.mp hlocate).1
      exact ⟨Nat.le_of_not_lt fun hlong => hbound ⟨hlong, hclean⟩, hlocate⟩
    · exact fun hlocate => hlocate.2

theorem locate_of_lookup {p : Path} (hlookup : d.lookup here through p = .ok spot) :
    d.locate here through p = .ok spot := (lookup_eq_ok_iff_locate.mp hlookup).2

theorem lookup_of_ways {p : Path} (hlookup : d.lookup here through p = .ok (.found place entry))
    (hways : d.KeepsWays after) {next : Spot} (hremains : after.Remains place entry next) :
    after.lookup here through p = .ok next := by
  obtain ⟨hbounded, hlocate⟩ := lookup_eq_ok_iff_locate.mp hlookup
  exact lookup_eq_ok_iff_locate.mpr ⟨hbounded, locate_of_ways hlocate hways hremains⟩

theorem lookup_eq_ok_iff {p : Path} :
    d.lookup here through p = .ok spot ↔
      d.Admits here p ∧
      d.Leads through linkLimit (origin here p) (Text.split '/' p.text.toList) spot := by
  rw [lookup_eq_ok_iff_locate, locate_eq_ok_iff]
  constructor
  · rintro ⟨hbounded, hclean, hwritten, hrooted, hleads⟩
    exact ⟨⟨hbounded, hclean, hwritten, hrooted⟩, hleads⟩
  · rintro ⟨⟨hbounded, hclean, hwritten, hrooted⟩, hleads⟩
    exact ⟨hbounded, hclean, hwritten, hrooted, hleads⟩

/-- A path whose pieces are known leads to where they lead. -/
theorem lookup_of_leads {p : Path} (pieces : List (List Char))
    (hpieces : Text.split '/' p.text.toList = pieces ∧ p.text.utf8ByteSize ≤ pathLimit ∧
      '\x00' ∉ p.text.toList ∧ p.text.isEmpty = false)
    (hrooted : d.at? (origin here p) = some .directory)
    (hleads : d.Leads through linkLimit (origin here p) pieces spot) :
    d.lookup here through p = .ok spot := by
  obtain ⟨hsplit, hbounded, hclean, hwritten⟩ := hpieces
  rw [lookup_eq_ok_iff, hsplit]
  exact ⟨⟨hbounded, hclean, hwritten, hrooted⟩, hleads⟩

/-- A path of any length that goes on behind a place where nothing stands leads nowhere. -/
theorem locate_behind_vacant {p : Path} {slashed : Bool} (front behind : List (List Char))
    (hpieces : Text.split '/' p.text.toList = front ++ behind ∧ '\x00' ∉ p.text.toList ∧
      p.text.isEmpty = false ∧ behind.all List.isEmpty = false)
    (hfront : d.Leads through linkLimit (origin here p) front (.vacant place slashed)) :
    d.locate here through p = .error .notFound := by
  obtain ⟨hsplit, hclean, hwritten, hbehind⟩ := hpieces
  have hfollow := hfront.follow_behind_vacant hbehind
  unfold locate origin at *
  by_cases habsolute : p.isAbsolute
  · simpa [hclean, hwritten, habsolute, hsplit] using hfollow
  · simpa [hclean, hwritten, habsolute, hsplit] using fun _ => hfollow

theorem lookup_behind_vacant {p : Path} {slashed : Bool} (front behind : List (List Char))
    (hpieces : Text.split '/' p.text.toList = front ++ behind ∧ '\x00' ∉ p.text.toList ∧
      p.text.isEmpty = false ∧ behind.all List.isEmpty = false)
    (hbounded : p.text.utf8ByteSize ≤ pathLimit)
    (hfront : d.Leads through linkLimit (origin here p) front (.vacant place slashed)) :
    d.lookup here through p = .error .notFound := by
  rw [lookup, if_neg fun hlong => Nat.not_lt.mpr hbounded hlong.1]
  exact locate_behind_vacant front behind hpieces hfront

theorem lookup_stands {p : Path} (hlookup : d.lookup here through p = .ok spot) :
    spot.Stands d := by
  obtain ⟨hadmits, hleads⟩ := lookup_eq_ok_iff.1 hlookup
  exact hleads.stands hadmits.rooted

theorem Admits.of_keeps {p : Path} (hadmits : d.Admits here p) (hkeeps : d.Keeps after) :
    after.Admits here p where
  bounded := hadmits.bounded
  clean := hadmits.clean
  written := hadmits.written
  rooted := hkeeps.directory hadmits.rooted

theorem lookup_found_of_keeps {p : Path}
    (hlookup : d.lookup here through p = .ok (.found place entry)) (hkeeps : d.Keeps after)
    {kept : Entry} (hkept : after.at? place = some kept) :
    after.lookup here through p = .ok (.found place kept) := by
  obtain ⟨hadmits, hleads⟩ := lookup_eq_ok_iff.1 hlookup
  exact lookup_eq_ok_iff.2
    ⟨hadmits.of_keeps hkeeps, hleads.found_of_keeps hkeeps hadmits.rooted hkept⟩

theorem lookup_found_of_vacant {p : Path}
    (hlookup : d.lookup here through p = .ok (.vacant place false)) (hkeeps : d.Keeps after)
    {content : ByteArray} {executable : Bool}
    (hplace : after.at? place = some (.file content executable)) :
    after.lookup here through p = .ok (.found place (.file content executable)) := by
  obtain ⟨hadmits, hleads⟩ := lookup_eq_ok_iff.1 hlookup
  exact lookup_eq_ok_iff.2 ⟨hadmits.of_keeps hkeeps, hleads.found_of_vacant hkeeps hplace⟩

theorem lookup_vacant_of_keeps {p : Path} {slashed : Bool}
    (hlookup : d.lookup here through p = .ok (.vacant place slashed)) (hkeeps : d.Keeps after)
    {next : Spot} (hnext : (after.at? place = none ∧ next = .vacant place slashed) ∨
      (after.at? place = some .directory ∧ next = .found place .directory)) :
    after.lookup here through p = .ok next := by
  obtain ⟨hadmits, hleads⟩ := lookup_eq_ok_iff.1 hlookup
  exact lookup_eq_ok_iff.2 ⟨hadmits.of_keeps hkeeps, hleads.vacant_of_keeps hkeeps hnext⟩

/-- A path that led to a vacant place leads there after directories have been made. -/
theorem lookup_vacant_of_grows {p : Path} {slashed : Bool}
    (hlookup : d.lookup here through p = .ok (.vacant place slashed)) (hgrows : d.Grows after) :
    (after.at? place = none ∧ after.lookup here through p = .ok (.vacant place slashed)) ∨
      (after.at? place = some .directory ∧
        after.lookup here through p = .ok (.found place .directory)) := by
  have hvacant := (lookup_stands hlookup).1
  rcases hgrows place with hsame | ⟨-, hdirectory⟩
  · have hfree : after.at? place = none := hsame.trans hvacant
    exact .inl ⟨hfree, lookup_vacant_of_keeps hlookup hgrows.keeps (.inl ⟨hfree, rfl⟩)⟩
  · exact .inr ⟨hdirectory, lookup_vacant_of_keeps hlookup hgrows.keeps (.inr ⟨hdirectory, rfl⟩)⟩

section joined

variable {base : Path} {name : String}

/-- A name joined to a path is looked up from the same directory, as one more piece. -/
theorem pieces_joined (hbase : base.EndsNamed) (hname : Path.IsName name) (here : Place) :
    origin here (base.join ⟨name⟩) = origin here base ∧
      Text.split '/' (base.join ⟨name⟩).text.toList =
        Text.split '/' base.text.toList ++ [name.toList] := by
  refine ⟨by rw [origin, origin, Path.isAbsolute_join hbase hname], ?_⟩
  rw [Path.toList_text_join hbase hname, Text.split_append_cons,
    Text.split_of_not_mem hname.slashless]

/-- The directory in which a name was looked up is found by the path in front of the name. -/
theorem lookup_front (hbase : base.EndsNamed) (hname : Path.IsName name)
    (hlookup : d.lookup here through (base.join ⟨name⟩) = .ok spot) :
    ∃ directory, d.lookup here true base = .ok (.found directory .directory) := by
  obtain ⟨hadmits, hleads⟩ := lookup_eq_ok_iff.1 hlookup
  obtain ⟨horigin, hpieces⟩ := pieces_joined hbase hname here
  have hbounded := hadmits.bounded
  rw [Path.text_join hbase hname, String.utf8ByteSize_append, String.utf8ByteSize_append]
    at hbounded
  rw [hpieces, horigin] at hleads
  obtain ⟨directory, hfront⟩ := hleads.front (by simp [hname.ne_nil])
  refine ⟨directory, lookup_eq_ok_iff.2 ⟨⟨by omega, ?_, ?_, ?_⟩, hfront⟩⟩
  · intro hnull
    refine hadmits.clean ?_
    rw [Path.toList_text_join hbase hname]
    exact List.mem_append_left _ hnull
  · simpa using hbase.ne_nil
  · rw [← horigin]
    exact hadmits.rooted

/-- A name joined to the path of a directory leads where it leads in that directory. -/
theorem lookup_behind (hbase : base.EndsNamed) (hname : Path.IsName name) {directory : Place}
    {next : Spot} (hfront : d.lookup here true base = .ok (.found directory .directory))
    (hlookup : d.lookup here through (base.join ⟨name⟩) = .ok spot)
    (hnext : ∀ links, d.Leads through links directory [name.toList] next) : spot = next := by
  obtain ⟨-, hdirectory⟩ := lookup_eq_ok_iff.1 hfront
  obtain ⟨-, hleads⟩ := lookup_eq_ok_iff.1 hlookup
  obtain ⟨horigin, hpieces⟩ := pieces_joined hbase hname here
  rw [hpieces, horigin] at hleads
  exact hleads.unique (hdirectory.behind (by simp) hnext)

/-- A path to a file has a parent. -/
theorem exists_parent?_of_file {p : Path} (hp : p.isAbsolute) {content : ByteArray}
    {executable : Bool}
    (hlookup : d.lookup here through p = .ok (.found place (.file content executable))) :
    ∃ parent, p.parent? = some parent := by
  rcases hparent : p.parent? with - | parent
  · obtain ⟨-, hleads⟩ := lookup_eq_ok_iff.1 hlookup
    rw [Path.split_of_isAbsolute hp] at hleads
    have hroot := hleads.unique (leads_of_silent _ _ ?_)
    · cases hroot
    · intro piece hpiece
      rcases List.mem_cons.mp hpiece with rfl | hpiece
      · exact .inl rfl
      · exact Path.silent_of_parent?_none hp hparent hpiece
  · exact ⟨parent, rfl⟩

/-- Beside a path that leads somewhere every name leads somewhere. -/
theorem lookup_beside {p parent : Path} (hp : p.isAbsolute) (hparent : p.parent? = some parent)
    (hname : Path.IsName name) (hentry : NamesEntry name.toList)
    (hclean : '\x00' ∉ name.toList) (hlookup : d.lookup here through p = .ok spot)
    (hbounded : (parent.join ⟨name⟩).text.utf8ByteSize ≤ pathLimit) :
    ∃ next, d.lookup here false (parent.join ⟨name⟩) = .ok next := by
  obtain ⟨hadmits, hleads⟩ := lookup_eq_ok_iff.1 hlookup
  obtain ⟨habsolute, front, others, hpieces, hothers, hbeside⟩ :=
    Path.pieces_parent_join hp hparent hname
  rw [Path.split_of_isAbsolute hp, hpieces, origin, if_pos hp, ← List.cons_append] at hleads
  obtain ⟨directory, hfront⟩ := hleads.front hothers
  obtain ⟨next, hnext⟩ := @exists_leads_name d _ hentry directory
  have hwhole := hfront.behind (by simp) hnext
  refine ⟨next, lookup_eq_ok_iff.2 ⟨⟨hbounded, ?_, ?_, ?_⟩, ?_⟩⟩
  · intro hnull
    rw [Path.text_of_isAbsolute habsolute, hbeside] at hnull
    have hmem : '\x00' ∈ Text.join '/' (front ++ [name.toList]) := by simpa using hnull
    rcases Text.mem_join hmem with hslash | ⟨piece, hpiece, hnull⟩
    · cases hslash
    · rcases List.mem_append.mp hpiece with hfirst | hlast
      · refine hadmits.clean ?_
        rw [Path.text_of_isAbsolute hp, hpieces]
        exact List.mem_cons_of_mem _ (Text.mem_join_of_mem (List.mem_append_left _ hfirst) hnull)
      · rw [List.mem_singleton.mp hlast] at hnull
        exact hclean hnull
  · rw [Bool.eq_false_iff, ne_eq, String.isEmpty_iff]
    intro hempty
    have htext := Path.text_of_isAbsolute habsolute
    rw [hempty] at htext
    cases htext
  · rw [origin, if_pos habsolute, at?_root]
  · rw [Path.split_of_isAbsolute habsolute, hbeside, origin, if_pos habsolute]
    exact hwhole

end joined

theorem lookup_unfollowed {p : Path} (hlookup : d.lookup here true p = .ok (.found place entry)) :
    ∃ place entry, d.lookup here false p = .ok (.found place entry) := by
  obtain ⟨hadmits, hleads⟩ := lookup_eq_ok_iff.1 hlookup
  obtain ⟨place, entry, hunfollowed⟩ := hleads.found_unfollowed
  exact ⟨place, entry, lookup_eq_ok_iff.2 ⟨hadmits, hunfollowed⟩⟩

end Disk

end ScriptAssembly
