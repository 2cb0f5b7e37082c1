import ScriptAssembly.Proofs.Project.Store

/-!
# The place of the stamp

Writing the configuration keeps what the path of a stamp leads to, and so does making the directory
for a stamp.  Other directories that are made keep an entry that is there, and where nothing had the
name of the stamp they can only take its place.
-/

namespace ScriptAssembly.Layout

/-- Nothing has the name of the stamp: nothing stands where its directory would be, or nothing in
that directory is named so. -/
def Unstamped (l : Layout) (m : Machine) : Prop :=
  (∃ place slashed, m.find l.metaDirectory = .ok (.vacant place slashed)) ∨
  ∃ here, m.find l.metaDirectory = .ok (.found here .directory) ∧
    m.disk.at? (here ++ ["last_build.json"]) = none

/-- The stamp and the configuration are different files. -/
def Apart (l : Layout) (m : Machine) : Prop :=
  ∀ place entry, m.find l.configPath = .ok (.found place entry) →
    m.find l.stampPath ≠ .ok (.found place entry)

/-- The name of the directory of the project's own files can be looked up, unless the path of the
stamp is too long for that. -/
def Rooted (l : Layout) (m : Machine) : Prop :=
  l.stampPath.text.utf8ByteSize ≤ pathLimit →
    ∃ spot, m.disk.lookup m.directory false l.metaDirectory = .ok spot

/-- The path of the stamp leads to the same entry or still to none, and nothing has got the name of
the stamp. -/
structure KeepsStamp (l : Layout) (before after : Machine) : Prop where
  /-- What the path of the stamp leads to is the same. -/
  entry : after.entry? l.stampPath = before.entry? l.stampPath
  /-- There is still nothing with that name. -/
  unstamped : l.Unstamped before → l.Unstamped after

variable {l : Layout} {m after : Machine} {place : Place} {entry : Entry}

theorem stampPath_eq_join (l : Layout) : l.stampPath = l.metaDirectory.join ⟨"last_build.json"⟩ :=
  rfl

namespace Unstamped

theorem of_alike (halike : m.Alike after) (hunstamped : l.Unstamped m) : l.Unstamped after := by
  rcases hunstamped with ⟨place, slashed, hmeta⟩ | ⟨here, hmeta, hfree⟩
  · exact .inl ⟨place, slashed, halike.find_other hmeta (by simp)⟩
  · exact .inr ⟨here, halike.find_other hmeta (by simp), halike.disk.vacant hfree⟩

end Unstamped

namespace Rooted

theorem of_grows (hgrows : m.Grows after) (hrooted : l.Rooted m) : l.Rooted after := by
  intro hbounded
  obtain ⟨spot, hlookup⟩ := hrooted hbounded
  rw [hgrows.setting.directory]
  cases spot with
  | found place entry =>
      have hkept := (hgrows.disk place).at?_eq_some (Disk.lookup_stands hlookup)
      exact ⟨_, Disk.lookup_found_of_keeps hlookup hgrows.disk.keeps hkept⟩
  | vacant place slashed =>
      rcases Disk.lookup_vacant_of_grows hlookup hgrows.disk with ⟨-, hafter⟩ | ⟨-, hafter⟩
      · exact ⟨_, hafter⟩
      · exact ⟨_, hafter⟩

/-- Where there is a configuration, its directory is there. -/
theorem of_find {spot : Spot} (hconfig : m.find l.configPath = .ok spot) : l.Rooted m := by
  intro _
  obtain ⟨here, hmeta⟩ :=
    Disk.lookup_front l.endsNamed_metaDirectory ⟨by decide, by decide⟩ hconfig
  obtain ⟨place, entry, hlookup⟩ := Disk.lookup_unfollowed hmeta
  exact ⟨_, hlookup⟩

/-- Beside a file the directory of the project's own files can be looked up. -/
theorem of_file {p : Path} (hp : p.isAbsolute) {content : ByteArray} {executable : Bool}
    (hfile : m.find p = .ok (.found place (.file content executable))) :
    (Layout.mk (p.parent?.getD ⟨""⟩)).Rooted m := by
  intro hbounded
  obtain ⟨parent, hparent⟩ := Disk.exists_parent?_of_file hp hfile
  rw [hparent, Option.getD_some] at hbounded ⊢
  refine Disk.lookup_beside hp hparent ⟨by decide, by decide⟩ (by decide) (by decide) hfile ?_
  rw [stampPath_eq_join, Path.text_join (endsNamed_metaDirectory _) ⟨by decide, by decide⟩,
    String.utf8ByteSize_append, String.utf8ByteSize_append] at hbounded
  exact Nat.le_trans (by rw [metaDirectory]; omega) hbounded

end Rooted

theorem KeepsStamp.refl (l : Layout) (m : Machine) : l.KeepsStamp m m := ⟨rfl, id⟩

/-- Writing the configuration keeps the stamp. -/
theorem KeepsStamp.of_writes {text old : ByteArray} {executable : Bool}
    (hwrites : m.Writes l.configPath text place executable after)
    (hfind : m.find l.configPath = .ok (.found place (.file old executable)))
    (hapart : l.Apart m) : l.KeepsStamp m after := by
  have halike := hwrites.alike hfind
  refine ⟨Machine.entry?_congr ?_, Unstamped.of_alike halike⟩
  rcases halike.find_cases l.stampPath with ⟨known, content, held, mode, hstamp, -⟩ | hsame
  · refine (hwrites.find_other hstamp ?_).trans hstamp.symm
    rintro rfl
    have hconfig : m.disk.at? known = some (.file old executable) := Disk.lookup_stands hfind
    have hstands : m.disk.at? known = some (.file content mode) := Disk.lookup_stands hstamp
    cases hconfig.symm.trans hstands
    exact hapart known _ hfind hstamp
  · exact hsame

end ScriptAssembly.Layout
