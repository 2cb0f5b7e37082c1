import ScriptAssembly.Proofs.Machine.Spelling

/-!
# Deleted files

Where a file is deleted nothing else changes.  Every path that led elsewhere leads where it led, and
every path that led to the file leads to the place that it has left, so an absolute one is then kept
as it is written.  It is kept as it was before exactly if it went straight to the file.
-/

namespace ScriptAssembly

namespace Disk

variable {before after : Disk} {place other : Place}

/-- The file that stood at the place is gone, and what stands at other places is the same. -/
structure Loses (before : Disk) (place : Place) (after : Disk) : Prop where
  /-- A file stood at the place. -/
  file : before.IsFileAt place
  /-- Only the place has changed. -/
  disk : ∀ other, after.at? other = if other = place then none else before.at? other

/-- A file is deleted by erasing its place. -/
theorem loses_erase (hfile : before.IsFileAt place) : before.Loses place (before.erase place) := by
  refine ⟨hfile, fun other => ?_⟩
  obtain ⟨content, executable, hentry⟩ := hfile
  have hroot : place ≠ [] := by
    rintro rfl
    rw [at?_root] at hentry
    cases hentry
  by_cases hbelow : place <+: other
  · have hgone : (before.erase place).at? other = none := by
      rw [at?, noted?_erase hroot, if_pos hbelow]
      exact ite_self none
    rw [hgone]
    by_cases hsame : other = place
    · rw [if_pos hsame]
    · rw [if_neg hsame]
      cases hother : before.at? other with
      | none => rfl
      | some known =>
          -- Nothing stands below a file.
          have hdirectory := at?_eq_directory_of_below hbelow (Ne.symm hsame) hother
          cases hentry.symm.trans hdirectory
  · have hkept : ∀ above, above <+: other →
        (before.erase place).noted? above = before.noted? above := by
      intro above habove
      rw [noted?_erase hroot, if_neg fun hcovered => hbelow (hcovered.trans habove)]
    have hreachable : (before.erase place).isReachable other = before.isReachable other := by
      rw [Bool.eq_iff_iff, isReachable_iff, isReachable_iff]
      refine forall_congr' fun n => ?_
      rw [hkept _ (List.take_prefix n other)]
    have happart : other ≠ place := by
      rintro rfl
      exact hbelow List.prefix_rfl
    rw [if_neg happart, at?, at?, hreachable, hkept other List.prefix_rfl]

namespace Loses

variable (hloses : before.Loses place after)

include hloses

theorem at?_place : after.at? place = none := by rw [hloses.disk, if_pos rfl]

theorem at?_other (hother : other ≠ place) : after.at? other = before.at? other := by
  rw [hloses.disk, if_neg hother]

theorem ways : before.KeepsWays after := by
  intro other entry hentry hway
  have hother : other ≠ place := by
    rintro rfl
    obtain ⟨content, executable, hfile⟩ := hloses.file
    cases hfile.symm.trans hentry
    cases hway
  rw [hloses.at?_other hother, hentry]

/-- What is left was there before. -/
theorem at?_eq_some {entry : Entry} (hentry : after.at? other = some entry) :
    other ≠ place ∧ before.at? other = some entry := by
  have hother : other ≠ place := by
    rintro rfl
    cases hloses.at?_place.symm.trans hentry
  exact ⟨hother, hloses.at?_other hother ▸ hentry⟩

theorem keeps_back : after.Keeps before :=
  fun _ entry hentry => ⟨entry, (hloses.at?_eq_some hentry).2, .inl rfl⟩

theorem remains {entry : Entry} (hother : other ≠ place) (hentry : before.at? other = some entry) :
    after.Remains other entry (.found other entry) :=
  .kept ((hloses.at?_other hother).trans hentry) rfl

end Loses

end Disk

namespace Machine

variable {m later : Machine} {p : Path} {place other : Place} {entry : Entry}

/-- The setting is the same, and the disk has lost a file. -/
structure Loses (m : Machine) (place : Place) (later : Machine) : Prop where
  /-- The setting is the same. -/
  setting : m.SameSetting later
  /-- The disk has lost the file at the place. -/
  disk : m.disk.Loses place later.disk

namespace Loses

variable (hloses : m.Loses place later)

include hloses

/-- What another path led to it leads to. -/
theorem find_other (hother : other ≠ place) (hfind : m.find p = .ok (.found other entry)) :
    later.find p = .ok (.found other entry) := by
  have hremains := hloses.disk.remains hother (Disk.lookup_stands hfind)
  rw [find, hloses.setting.directory]
  exact Disk.lookup_of_ways hfind hloses.disk.ways hremains

/-- What led to the file leads to the place that it has left. -/
theorem find_lost (hfind : m.find p = .ok (.found place entry)) :
    later.find p = .ok (.vacant place false) := by
  rw [find, hloses.setting.directory]
  exact Disk.lookup_of_ways hfind hloses.disk.ways (.gone hloses.disk.at?_place)

/-- Paths lead where they led, except that none leads to the file. -/
theorem leadsTo_iff : later.LeadsTo p other ↔ m.LeadsTo p other ∧ other ≠ place := by
  constructor
  · rintro ⟨entry, hlocate⟩
    have hstands := (Disk.stands_of_locate hlocate).1
    obtain ⟨hother, hbefore⟩ := hloses.disk.at?_eq_some hstands
    rw [hloses.setting.directory] at hlocate
    exact ⟨⟨entry, Disk.locate_of_ways hlocate hloses.disk.keeps_back.ways (.kept hbefore rfl)⟩,
      hother⟩
  · rintro ⟨⟨entry, hlocate⟩, hother⟩
    have hremains := hloses.disk.remains hother (Disk.stands_of_locate hlocate).1
    refine ⟨entry, ?_⟩
    rw [hloses.setting.directory]
    exact Disk.locate_of_ways hlocate hloses.disk.ways hremains

/-- An absolute path that led to the file is kept as it is written. -/
theorem identity_lost (hp : p.isAbsolute) (hleads : m.LeadsTo p place) : later.identity p = p := by
  obtain ⟨entry, hlocate⟩ := hleads
  have hgone : later.disk.locate later.directory true p = .ok (.vacant place false) := by
    rw [hloses.setting.directory]
    exact Disk.locate_of_ways hlocate hloses.disk.ways (.gone hloses.disk.at?_place)
  obtain ⟨e, hcanonical⟩ : ∃ e, later.canonical p = .error e :=
    canonical_of_unresolved fun other ⟨kept, hother⟩ => nomatch hgone.symm.trans hother
  exact identity_of_absolute hcanonical hp

theorem staysShort (p : Path) : later.staysShort p = m.staysShort p :=
  staysShort_congr hloses.setting.directory hloses.disk.ways hloses.disk.keeps_back.ways p

theorem workingDirectory : later.workingDirectory = m.workingDirectory := by
  have hdirectory : later.disk.at? m.directory = some .directory ↔
      m.disk.at? m.directory = some .directory :=
    ⟨fun hthere => (hloses.disk.at?_eq_some hthere).2,
      fun hthere => hloses.disk.ways _ _ hthere rfl⟩
  have hthere : later.disk.isDirectoryAt m.directory = m.disk.isDirectoryAt m.directory := by
    rw [Bool.eq_iff_iff, Disk.isDirectoryAt_iff, Disk.isDirectoryAt_iff, hdirectory]
  rw [Machine.workingDirectory, Machine.workingDirectory, hloses.setting.directory, hthere]

/-- The root that a name stands for is the same unless it is the path of the file. -/
theorem namedRoot {name : String} {root : Path} (hroot : m.namedRoot name = .ok root)
    (hapart : root ≠ place.path) : later.namedRoot name = .ok root := by
  rw [Machine.namedRoot] at hroot ⊢
  rw [hloses.workingDirectory]
  by_cases hdot : (Path.mk name).Same ⟨"."⟩
  · rw [if_pos hdot] at hroot ⊢
    exact hroot
  · rw [if_neg hdot] at hroot ⊢
    cases hcanonical : m.canonical ⟨name⟩ with
    | ok known =>
        obtain ⟨hshort, other, entry, hlocate, rfl⟩ := canonical_eq_ok_iff.mp hcanonical
        rw [hcanonical] at hroot
        cases hroot
        have hother : other ≠ place := by
          rintro rfl
          exact hapart rfl
        rw [canonical_of_leadsTo (hloses.leadsTo_iff.mpr ⟨⟨entry, hlocate⟩, hother⟩)
          (hloses.staysShort _ ▸ hshort)]
    | error e =>
        -- What was not resolved is not resolved now.
        obtain ⟨e', hafter⟩ : ∃ e', later.canonical ⟨name⟩ = .error e' := by
          refine canonical_of_unresolved fun other hlater => ?_
          rw [hloses.staysShort, Bool.eq_false_iff]
          intro hshort
          rw [canonical_of_leadsTo (hloses.leadsTo_iff.mp hlater).1 hshort] at hcanonical
          cases hcanonical
        rw [hcanonical] at hroot
        rw [hafter]
        exact hroot

end Loses

end Machine

end ScriptAssembly
