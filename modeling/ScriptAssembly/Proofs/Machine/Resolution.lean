import ScriptAssembly.Collect
import ScriptAssembly.Proofs.Machine.Files

/-!
# Ways that stay short

A path is resolved by asking for each entry on its way by the path of its place.  Which entries
these are depends on the directories and links alone, so a way stays short or not on all disks that
have the same ones.  On a disk whose entries all have short paths every way that leads somewhere
stays short, and then a path is resolved to the path of the place that it leads to.
-/

namespace ScriptAssembly

namespace Disk

variable {d after : Disk} {links : Nat} {here place : Place} {pieces rest : List (List Char)}
  {piece : List Char} {entry : Entry}

theorem staysShort_of_silent (hsilent : piece = [] ∨ piece = ['.']) :
    d.staysShort links here (piece :: rest) = d.staysShort links here rest := by
  rw [staysShort, if_pos hsilent]

theorem staysShort_above : d.staysShort links here (['.', '.'] :: rest) =
    d.staysShort links here.dropLast rest := by
  rw [staysShort, if_neg (by decide), if_pos rfl]

theorem staysShort_cons (hspoken : ¬(piece = [] ∨ piece = ['.'])) (habove : piece ≠ ['.', '.']) :
    d.staysShort links here (piece :: rest) =
      if pathLimit < (Place.path (here ++ [.ofList piece])).text.utf8ByteSize then false
      else
        match d.at? (here ++ [.ofList piece]) with
        | some .directory =>
          if asksDirectory rest ∧
            (Place.path (here ++ [.ofList piece])).text.utf8ByteSize = pathLimit then false
          else d.staysShort links (here ++ [.ofList piece]) rest
        | some (.link target) =>
          match links with
          | 0 => true
          | links + 1 =>
            d.staysShort links (if target.isAbsolute then [] else here)
              (Text.split '/' target.text.toList ++ rest)
        | _ => true := by
  rw [staysShort]
  exact (if_neg hspoken).trans (if_neg habove)

/-- A way stays short or not on both of two disks with the same directories and links. -/
theorem staysShort_congr (hways : d.KeepsWays after) (hback : after.KeepsWays d) (links : Nat)
    (here : Place) (pieces : List (List Char)) :
    after.staysShort links here pieces = d.staysShort links here pieces := by
  induction links, here, pieces using staysShort.induct d with
  | case1 links here => rw [staysShort, staysShort]
  | case2 links here piece rest hsilent ih =>
      rw [staysShort_of_silent hsilent, staysShort_of_silent hsilent, ih]
  | case3 links here rest hspoken ih => rw [staysShort_above, staysShort_above, ih]
  | case4 links here piece rest hspoken habove place size hlong =>
      rw [staysShort_cons hspoken habove, staysShort_cons hspoken habove, if_pos hlong,
        if_pos hlong]
  | case5 links here piece rest hspoken habove place size hshort hentry hasks =>
      have hkept := hways place _ hentry rfl
      simp only [staysShort_cons hspoken habove, place] at hentry hkept ⊢
      simp only [hentry, hkept]
      rw [if_pos hasks, if_pos hasks]
  | case6 links here piece rest hspoken habove place size hshort hentry hasks ih =>
      have hkept := hways place _ hentry rfl
      simp only [staysShort_cons hspoken habove, place] at hentry hkept ⊢
      simp only [hentry, hkept]
      rw [if_neg hasks, if_neg hasks, ih]
  | case7 here piece rest hspoken habove place size hshort target hentry =>
      have hkept := hways place _ hentry rfl
      simp only [staysShort_cons hspoken habove, place] at hentry hkept ⊢
      simp only [hentry, hkept]
  | case8 here piece rest hspoken habove place size hshort target hentry links ih =>
      have hkept := hways place _ hentry rfl
      simp only [staysShort_cons hspoken habove, place] at hentry hkept ⊢
      simp only [hentry, hkept]
      exact congrArg (if pathLimit < size then false else ·) ih
  | case9 links here piece rest hspoken habove place size hshort hdirectory hlink =>
      -- What is neither a directory nor a link on the one disk is neither on the other.
      have hends : ∀ disk : Disk, disk.at? place ≠ some .directory →
          (∀ target, disk.at? place ≠ some (.link target)) →
          disk.staysShort links here (piece :: rest) = true := by
        intro disk hother hunlinked
        rw [staysShort_cons hspoken habove, if_neg hshort]
        split
        · rename_i hentry
          exact absurd hentry hother
        · rename_i target hentry
          exact absurd hentry (hunlinked target)
        · rfl
      rw [hends d hdirectory hlink, hends after]
      · exact fun hentry => hdirectory (hback place _ hentry rfl)
      · exact fun target hentry => hlink target (hback place _ hentry rfl)

/-- Every entry can be asked for by the path of its place, with a slash behind it. -/
def Short (d : Disk) : Prop :=
  ∀ place entry, d.at? place = some entry → place.path.text.utf8ByteSize < pathLimit

/-- Where all paths are short, every way that leads to an entry stays short. -/
theorem Leads.staysShort (hleads : d.Leads true links here pieces (.found place entry))
    (hshort : d.Short) : d.staysShort links here pieces = true := by
  generalize hspot : Spot.found place entry = spot at hleads
  induction hleads with
  | arrived => rw [Disk.staysShort]
  | silent hsilent _ ih =>
      rw [staysShort_of_silent hsilent]
      exact ih hspot
  | above _ ih =>
      rw [staysShort_above]
      exact ih hspot
  | vacant => cases hspot
  | directory hname hentry _ ih =>
      have hsize := hshort _ _ hentry
      rw [staysShort_cons hname.spoken hname.notAbove, if_neg (by omega), hentry]
      exact (if_neg fun hasks => Nat.ne_of_lt hsize hasks.2).trans (ih hspot)
  | file hname hentry =>
      have hsize := hshort _ _ hentry
      rw [staysShort_cons hname.spoken hname.notAbove, if_neg (by omega), hentry]
  | link _ _ hlast => cases hlast
  | linked hname hentry _ _ ih =>
      have hsize := hshort _ _ hentry
      rw [staysShort_cons hname.spoken hname.notAbove, if_neg (by omega), hentry]
      exact ih hspot

/-- The disk is short if its list of entries is. -/
theorem short_of_entries
    (hentries : d.entries.all fun known => known.1.path.text.utf8ByteSize < pathLimit) :
    d.Short := by
  intro place entry hentry
  by_cases hroot : place = []
  · subst hroot
    decide
  · have hmem := mem_of_noted? hroot (noted?_eq_some_of_at? hentry)
    exact of_decide_eq_true (List.all_eq_true.mp hentries _ hmem)

end Disk

namespace Machine

variable {m : Machine} {p known : Path} {place : Place} {entry : Entry}

/-- A path is resolved to the path of the place that it leads to, by a way that stays short. -/
theorem canonical_eq_ok_iff : m.canonical p = .ok known ↔ m.staysShort p ∧
    ∃ place entry, m.disk.locate m.directory true p = .ok (.found place entry) ∧
      known = place.path := by
  unfold canonical
  cases hshort : m.staysShort p with
  | false =>
      refine iff_of_false ?_ nofun
      rintro ⟨⟩
  | true =>
      rcases m.disk.locate m.directory true p with e | ⟨place, entry⟩ | ⟨place, slashed⟩
      · refine iff_of_false ?_ fun ⟨_, _, _, hlocate, _⟩ => nomatch hlocate
        rintro ⟨⟩
      · constructor
        · rintro ⟨⟩
          exact ⟨rfl, place, entry, rfl, rfl⟩
        · rintro ⟨-, found, kept, hfound, rfl⟩
          cases hfound
          rfl
      · refine iff_of_false ?_ fun ⟨_, _, _, hlocate, _⟩ => nomatch hlocate
        rintro ⟨⟩

theorem staysShort_of_locate (hshort : m.disk.Short)
    (hlocate : m.disk.locate m.directory true p = .ok (.found place entry)) : m.staysShort p := by
  obtain ⟨-, -, -, hleads⟩ := Disk.locate_eq_ok_iff.mp hlocate
  exact hleads.staysShort hshort

theorem canonical_of_find (hshort : m.disk.Short) (hfind : m.find p = .ok (.found place entry)) :
    m.canonical p = .ok place.path := by
  have hlocate := locate_of_find hfind
  exact canonical_eq_ok_iff.mpr
    ⟨staysShort_of_locate hshort hlocate, place, entry, hlocate, rfl⟩

/-- Where all paths are short, a path that leads to an entry is kept as the place of the entry. -/
theorem identity_of_find (hshort : m.disk.Short) (hfind : m.find p = .ok (.found place entry)) :
    m.identity p = place.path := by rw [identity, canonical_of_find hshort hfind]

/-- Whether a path leads anywhere or not, a machine with the same directories and links resolves it
by a way that is as short. -/
theorem staysShort_congr {later : Machine} (hdirectory : later.directory = m.directory)
    (hways : m.disk.KeepsWays later.disk) (hback : later.disk.KeepsWays m.disk) (p : Path) :
    later.staysShort p = m.staysShort p := by
  rw [staysShort, staysShort, hdirectory, Disk.staysShort_congr hways hback]

end Machine

end ScriptAssembly
