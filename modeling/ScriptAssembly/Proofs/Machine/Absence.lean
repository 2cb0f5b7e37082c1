import ScriptAssembly.Proofs.Machine.Shape

/-!
# Paths to no file

A path leads to no file if nothing stands at its place, or a directory does, or if directories on
the way there are missing.  It goes on leading to no file while every entry is kept and nothing but
directories comes to stand on its way.
-/

namespace ScriptAssembly

namespace Disk

/-- The pieces of a path lead to the place, where no file stands, or they would lead there if the
directories on the way were made. -/
inductive Lacks (d : Disk) (links : Nat) (here : Place) (pieces : List (List Char))
    (place : Place) : Prop
  | vacant {front behind base slashed} (hpieces : pieces = front ++ behind)
      (hnames : ∀ piece ∈ behind, NamesEntry piece)
      (hplace : place = base ++ behind.map .ofList)
      (hfront : d.Leads true links here front (.vacant base slashed)) :
      Lacks d links here pieces place
  | directory (hleads : d.Leads true links here pieces (.found place .directory)) :
      Lacks d links here pieces place

variable {d after : Disk} {links : Nat} {here base place : Place}
  {front behind pieces : List (List Char)}

/-- Names behind the path of a directory lack their file if there are at most directories on the
way. -/
theorem lacks_of_directory (hfront : d.Leads true links here front (.found base .directory))
    (hnames : ∀ piece ∈ behind, NamesEntry piece)
    (hfree : ∀ place, base <+: place → place <+: base ++ behind.map .ofList →
      d.at? place = none ∨ d.at? place = some .directory) :
    d.Lacks links here (front ++ behind) (base ++ behind.map .ofList) := by
  induction behind generalizing front base with
  | nil =>
      rw [List.append_nil, List.map_nil, List.append_nil]
      exact .directory hfront
  | cons piece rest ih =>
      obtain ⟨hname, hrest⟩ := List.forall_mem_cons.mp hnames
      have hplace : base ++ (piece :: rest).map .ofList =
          base ++ [.ofList piece] ++ rest.map .ofList := by simp
      have hpieces : front ++ piece :: rest = front ++ [piece] ++ rest := by simp
      rw [hplace] at hfree ⊢
      rw [hpieces]
      rcases hfree _ (List.prefix_append base _) (List.prefix_append _ _) with hnone | hdirectory
      · exact .vacant rfl hrest rfl
          (hfront.behind (by simp) fun _ => .vacant hname hnone rfl)
      · refine ih (hfront.behind (by simp) fun _ => .directory hname hdirectory .arrived) hrest ?_
        exact fun place hbelow => hfree place ((List.prefix_append base _).trans hbelow)

namespace Lacks

variable (hlacks : d.Lacks links here pieces place)

include hlacks

/-- While every entry is kept, only what comes to stand on the way of a path can let it lead to a
file. -/
theorem of_keeps (hhere : d.at? here = some .directory) (hkeeps : d.Keeps after)
    (hfree : ∀ above, above <+: place → d.at? above = none →
      after.at? above = none ∨ after.at? above = some .directory) :
    after.Lacks links here pieces place := by
  cases hlacks with
  | @vacant front behind base _ hpieces hnames hplace hfront =>
      have hvacant : d.at? base = none := (hfront.stands hhere).1
      subst hpieces hplace
      have hway : ∀ place, base <+: place → place <+: base ++ behind.map .ofList →
          after.at? place = none ∨ after.at? place = some .directory :=
        fun place hbelow habove => hfree place habove (at?_of_vacant hvacant hbelow)
      rcases hway base (List.prefix_rfl) (List.prefix_append _ _) with hnone | hdirectory
      · exact .vacant rfl hnames rfl (hfront.vacant_of_keeps hkeeps (.inl ⟨hnone, rfl⟩))
      · have hled := hfront.vacant_of_keeps hkeeps (.inr ⟨hdirectory, rfl⟩)
        exact lacks_of_directory hled hnames hway
  | directory hleads =>
      exact .directory
        (hleads.found_of_keeps hkeeps hhere (hkeeps.directory (hleads.stands hhere)))

theorem not_leads_file {other : Place} {content : ByteArray} {executable : Bool} :
    ¬d.Leads true links here pieces (.found other (.file content executable)) := by
  intro hfile
  cases hlacks with
  | @vacant front behind base _ hpieces hnames hplace hfront =>
      subst hpieces
      rcases behind with - | ⟨piece, rest⟩
      · rw [List.append_nil] at hfile
        cases hfront.unique hfile
      · have hpiece : piece.isEmpty = false := by
          have hspoken := (hnames piece List.mem_cons_self).spoken
          rw [Bool.eq_false_iff, ne_eq, List.isEmpty_iff]
          exact fun hempty => hspoken (.inl hempty)
        obtain ⟨directory, hdirectory⟩ :=
          hfile.front (by rw [List.all_cons, hpiece, Bool.false_and])
        cases hfront.unique hdirectory
  | directory hleads => cases hleads.unique hfile

end Lacks

/-- Where the shape is the same every entry is kept, and a file at most holds something else. -/
theorem Alike.keeps (halike : d.Alike after) : d.Keeps after := by
  intro place entry hentry
  have hsame := halike place
  rw [hentry] at hsame
  obtain ⟨kept, hkept, hemptied⟩ := Option.map_eq_some_iff.mp hsame
  refine ⟨kept, hkept, ?_⟩
  cases entry <;> cases kept <;> simp_all [Entry.emptied, Entry.isFile]

end Disk

namespace Machine

variable {m after : Machine} {p q : Path} {place : Place}

/-- The path leads to the place, where no file stands, or it would lead there if the directories on
the way were made. -/
structure Lacks (m : Machine) (p : Path) (place : Place) : Prop where
  /-- The path can be looked up. -/
  admits : m.disk.Admits m.directory p
  /-- There is no file. -/
  lacks : m.disk.Lacks linkLimit (Disk.origin m.directory p) (Text.split '/' p.text.toList) place

theorem lacks_of_vacant {slashed : Bool} (hfind : m.find p = .ok (.vacant place slashed)) :
    m.Lacks p place := by
  obtain ⟨hadmits, hleads⟩ := Disk.lookup_eq_ok_iff.mp hfind
  exact ⟨hadmits, .vacant (List.append_nil _).symm (by simp) (List.append_nil _).symm hleads⟩

namespace Lacks

variable (hlacks : m.Lacks p place)

include hlacks

theorem isFile : m.isFile p = false := by
  unfold Machine.isFile entry?
  rcases hfind : m.find p with e | ⟨other, - | ⟨content, executable⟩ | target⟩ | ⟨other, slashed⟩
  case ok.found.file =>
    exact absurd (Disk.lookup_eq_ok_iff.mp hfind).2 hlacks.lacks.not_leads_file
  all_goals rfl

theorem of_keeps (hsetting : m.SameSetting after) (hkeeps : m.disk.Keeps after.disk)
    (hfree : ∀ above, above <+: place → m.disk.at? above = none →
      after.disk.at? above = none ∨ after.disk.at? above = some .directory) :
    after.Lacks p place := by
  obtain ⟨hadmits, hlacks⟩ := hlacks
  have hlater := hlacks.of_keeps hadmits.rooted hkeeps hfree
  rw [← hsetting.directory] at hadmits hlater
  exact ⟨hadmits.of_keeps hkeeps, hlater⟩

theorem of_alike (halike : m.Alike after) : after.Lacks p place :=
  hlacks.of_keeps halike.setting halike.disk.keeps fun _ _ hfree => .inl (halike.disk.vacant hfree)

theorem of_grows (hgrows : m.Grows after) : after.Lacks p place := by
  refine hlacks.of_keeps hgrows.setting hgrows.disk.keeps fun above _ hfree => ?_
  rcases hgrows.disk above with hsame | ⟨-, hdirectory⟩
  · exact .inl (hsame.trans hfree)
  · exact .inr hdirectory

/-- A file written neither at the place nor on the way there changes nothing for the path. -/
theorem of_writes {content : ByteArray} {written : Place} {executable : Bool}
    (hwrites : m.Writes q content written executable after) (hapart : ¬written <+: place) :
    after.Lacks p place := by
  refine hlacks.of_keeps hwrites.setting hwrites.keeps fun above habove hfree => .inl ?_
  have hother : above ≠ written := fun hsame => hapart (hsame ▸ habove)
  rw [hwrites.disk, if_neg hother, hfree]

end Lacks

end Machine

end ScriptAssembly
