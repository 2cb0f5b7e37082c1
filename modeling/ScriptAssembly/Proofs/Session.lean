import ScriptAssembly.Proofs.Collect.Shown
import ScriptAssembly.Proofs.Machine.NormalForm
import ScriptAssembly.Proofs.Sets
import ScriptAssembly.Session

/-!
# Sessions made by operations

On one machine every operation adds identities only.  So whatever operations have made a session, a
path that it lists is kept as it is, and no two paths of one list that are resolved lead to the same
place, in whatever spelling they were given.
-/

namespace ScriptAssembly

namespace Session

section

variable {m : Machine} {c : Collector} {folder : Path} {s : Session}

theorem addFolder_of_contains (hknown : s.folders.contains (m.identity folder)) :
    s.addFolder m c folder = s := by
  simp only [addFolder, hknown, if_true]

theorem addFolder_of_new (hnew : s.folders.contains (m.identity folder) = false) :
    s.addFolder m c folder = { s with
      folders := s.folders.insert (m.identity folder)
      sources := s.sources.insertMany (c.collect m (m.identity folder)) } := by
  simp only [addFolder, hnew, Bool.false_eq_true, if_false]

end

/-- An operation on a session. -/
inductive Operation where
  /-- A reference is picked. -/
  | addReference (p : Path)
  /-- A reference is dropped. -/
  | removeReference (p : Path)
  /-- A folder is picked with the sources below it that have the extension; links are passed over.
  -/
  | addFolder (extension : String) (folder : Path)
  /-- A folder is dropped. -/
  | removeFolder (folder : Path)
  /-- A source is picked. -/
  | addSource (p : Path)
  /-- A source is dropped. -/
  | removeSource (p : Path)
  /-- The symbols are replaced. -/
  | withSymbols (symbols : SymbolSet)
  /-- The name of the binary is replaced. -/
  | withOutputName (outputName : String)
  /-- The kind of binary is replaced. -/
  | withOutputKind (outputKind : OutputKind)
  /-- The symbols are replaced by those of the sources. -/
  | rescan

/-- The session after an operation on a machine. -/
def operate (m : Machine) (s : Session) : Operation → Except ScanError Session
  | .addReference p => .ok (s.addReference m p)
  | .removeReference p => .ok (s.removeReference m p)
  | .addFolder extension folder => .ok (s.addFolder m ⟨extension, false⟩ folder)
  | .removeFolder folder => .ok (s.removeFolder m folder)
  | .addSource p => .ok (s.addSource m p)
  | .removeSource p => .ok (s.removeSource m p)
  | .withSymbols symbols => .ok (s.withSymbols symbols)
  | .withOutputName outputName => .ok (s.withOutputName outputName)
  | .withOutputKind outputKind => .ok (s.withOutputKind outputKind)
  | .rescan => s.rescan m

variable {m : Machine} {s after : Session}

/-- Every path of the session is kept as it is. -/
structure Identified (m : Machine) (s : Session) : Prop where
  /-- The references are. -/
  references : ∀ p ∈ s.references.toList, m.Identifies p
  /-- The folders are. -/
  folders : ∀ p ∈ s.folders.toList, m.Identifies p
  /-- The sources are. -/
  sources : ∀ p ∈ s.sources.toList, m.Identifies p

theorem identified_empty (m : Machine) : empty.Identified m :=
  ⟨nofun, nofun, nofun⟩

theorem Identified.step (hidentified : s.Identified m) (hordinary : m.Ordinary)
    {operation : Operation} (hoperate : s.operate m operation = .ok after) :
    after.Identified m := by
  obtain ⟨hreferences, hfolders, hsources⟩ := hidentified
  have hidentity := Machine.identifies_identity hordinary
  cases operation with
  | addReference p =>
      cases hoperate
      exact ⟨PathSet.forall_mem_insert hreferences (hidentity p), hfolders, hsources⟩
  | removeReference p =>
      cases hoperate
      exact ⟨PathSet.forall_mem_erase hreferences _, hfolders, hsources⟩
  | addFolder extension folder =>
      cases hoperate
      rw [addFolder]
      split
      · exact ⟨hreferences, hfolders, hsources⟩
      · refine ⟨hreferences, PathSet.forall_mem_insert hfolders (hidentity folder), ?_⟩
        refine PathSet.forall_mem_insertMany hsources fun p hp => ?_
        obtain ⟨habsolute, hkept⟩ := Collector.identity_of_mem_collect hordinary.names hp
        exact Machine.identifies_of_identity habsolute hkept
  | removeFolder folder =>
      cases hoperate
      exact ⟨hreferences, PathSet.forall_mem_erase hfolders _, hsources⟩
  | addSource p =>
      cases hoperate
      exact ⟨hreferences, hfolders, PathSet.forall_mem_insert hsources (hidentity p)⟩
  | removeSource p =>
      cases hoperate
      exact ⟨hreferences, hfolders, PathSet.forall_mem_erase hsources _⟩
  | withSymbols symbols =>
      cases hoperate
      exact ⟨hreferences, hfolders, hsources⟩
  | withOutputName outputName =>
      cases hoperate
      exact ⟨hreferences, hfolders, hsources⟩
  | withOutputKind outputKind =>
      cases hoperate
      exact ⟨hreferences, hfolders, hsources⟩
  | rescan =>
      cases hsymbols : m.scanFiles s.sources.toList with
      | error e =>
          rw [Session.operate, Session.rescan, hsymbols] at hoperate
          cases hoperate
      | ok symbols =>
          rw [Session.operate, Session.rescan, hsymbols] at hoperate
          cases hoperate
          exact ⟨hreferences, hfolders, hsources⟩

theorem Identified.run (hidentified : s.Identified m) (hordinary : m.Ordinary)
    {operations : List Operation} (hoperate : operations.foldlM (operate m) s = .ok after) :
    after.Identified m := by
  induction operations generalizing s with
  | nil =>
      cases hoperate
      exact hidentified
  | cons operation operations ih =>
      rw [List.foldlM_cons] at hoperate
      cases hfirst : s.operate m operation with
      | error e =>
          rw [hfirst] at hoperate
          cases hoperate
      | ok between =>
          rw [hfirst] at hoperate
          exact ih (hidentified.step hordinary hfirst) hoperate

/-- Whatever operations have made a session, each of its paths is absolute and its own identity,
where only a slash behind the working directory is not kept, and the paths of one list are not
spellings of one path.  Nor do they lead to one place, unless the way of one of them does not stay
short. -/
theorem paths_of_operations (hordinary : m.Ordinary) {operations : List Operation}
    (hoperate : operations.foldlM (operate m) empty = .ok s) :
    ∀ paths ∈ [s.references, s.folders, s.sources],
      (∀ p ∈ paths.toList, p.isAbsolute ∧ (m.identity p).Same p ∧
        (m.identity p = p ∨ p = m.directory.path.join ⟨""⟩ ∧ m.identity p = m.directory.path)) ∧
      paths.toList.Pairwise fun p q =>
        ¬p.Same q ∧ ∀ place, m.LeadsTo p place → m.LeadsTo q place →
          m.staysShort p = false ∨ m.staysShort q = false := by
  have hidentified := (identified_empty m).run hordinary hoperate
  intro paths hpaths
  have hall : ∀ p ∈ paths.toList, m.Identifies p := by
    simp only [List.mem_cons, List.not_mem_nil, or_false] at hpaths
    rcases hpaths with rfl | rfl | rfl
    · exact hidentified.references
    · exact hidentified.folders
    · exact hidentified.sources
  refine ⟨fun p hp => ⟨(hall p hp).absolute, (hall p hp).same, (hall p hp).written⟩, ?_⟩
  refine paths.distinct.imp_of_mem fun {p q} hp hq hother => ⟨hother, fun place hleads hled => ?_⟩
  cases hshort : m.staysShort p with
  | false => exact .inl rfl
  | true =>
      refine .inr (Bool.eq_false_iff.mpr fun hbeside => hother ?_)
      exact (hall p hp).same_of_leadsTo (hall q hq) hleads hled hshort hbeside

/-- The root holds a source and a link to it. -/
def linkedSources : Machine where
  disk := ⟨[(["a.cs"], .file .empty false), (["b.cs"], .link ⟨"a.cs"⟩)]⟩
  directory := []
  environment := []

theorem ordinary_linkedSources : linkedSources.Ordinary where
  directory := rfl
  names := by
    intro place entry hentry name hname
    have hroot : place ≠ [] := List.ne_nil_of_mem hname
    have hnoted := Disk.mem_of_noted? hroot (Disk.noted?_eq_some_of_at? hentry)
    simp only [linkedSources, List.mem_cons, Prod.mk.injEq, List.not_mem_nil, or_false] at hnoted
    rcases hnoted with ⟨rfl, -⟩ | ⟨rfl, -⟩
    · obtain rfl := List.mem_singleton.mp hname
      decide
    · obtain rfl := List.mem_singleton.mp hname
      decide

theorem paths_of_operations_linkedSources :
    let s := ((empty.addSource linkedSources ⟨"b.cs"⟩).addFolder linkedSources ⟨"cs", false⟩
      ⟨"."⟩).addSource linkedSources ⟨"./a.cs"⟩
    linkedSources.disk.Short ∧ ∀ paths ∈ [s.references, s.folders, s.sources],
      (∀ p ∈ paths.toList, p.isAbsolute ∧ (linkedSources.identity p).Same p ∧
        (linkedSources.identity p = p ∨ p = linkedSources.directory.path.join ⟨""⟩ ∧
          linkedSources.identity p = linkedSources.directory.path)) ∧
      paths.toList.Pairwise fun p q =>
        ¬p.Same q ∧ ∀ place, ¬(linkedSources.LeadsTo p place ∧ linkedSources.LeadsTo q place) := by
  intro s
  have hshort : linkedSources.disk.Short := Disk.short_of_entries (by decide)
  have hpaths := @paths_of_operations linkedSources s ordinary_linkedSources
    [.addSource ⟨"b.cs"⟩, .addFolder "cs" ⟨"."⟩, .addSource ⟨"./a.cs"⟩] rfl
  refine ⟨hshort, fun paths hmem => ⟨(hpaths paths hmem).1, ?_⟩⟩
  refine (hpaths paths hmem).2.imp fun hother => ⟨hother.1, fun place ⟨hleads, hled⟩ => ?_⟩
  have hp := Machine.staysShort_of_leadsTo hshort hleads
  have hq := Machine.staysShort_of_leadsTo hshort hled
  rcases hother.2 place hleads hled with hlong | hlong
  · cases hp.symm.trans hlong
  · cases hq.symm.trans hlong

/-- A source that is too deep is listed once for each link by which it is picked. -/
theorem paths_of_deepSource :
    let p : Path := ⟨"/a/f.cs"⟩
    let q : Path := ⟨"/b/f.cs"⟩
    Machine.deepSource.Ordinary ∧
    ∃ s, [Operation.addSource p, .addSource q].foldlM (operate Machine.deepSource) empty = .ok s ∧
      s.sources.toList = [p, q] ∧
      ∃ place, Machine.deepSource.LeadsTo p place ∧ Machine.deepSource.LeadsTo q place := by
  intro p q
  obtain ⟨ha, hb⟩ := Machine.identity_deepSource
  refine ⟨Machine.ordinary_deepSource, (empty.addSource Machine.deepSource p).addSource
    Machine.deepSource q, rfl, ?_, _, Machine.leadsTo_deepSource⟩
  rw [addSource, addSource, ha, hb]
  decide

end Session

end ScriptAssembly
