import ScriptAssembly.Proofs.Collect.Listing
import ScriptAssembly.Proofs.Machine.NormalForm
import ScriptAssembly.Proofs.Scan.Names
import ScriptAssembly.Proofs.Session

/-!
# The order of picks

Sources are picked as files and kept as the paths of their places, so it does not matter which of
two spellings comes first.  Folders may be missing and are then kept as they were spelt, but a
collector lists the same files for every spelling that is resolved.  Hence two neighbouring picks
can change places: the sessions after them hold the same sources, listed in some order, and the same
references and folders in some spelling.  By induction on permutations so do the sessions after any
two orders of the same picks, and both scan to the same symbols or both fail to.

A folder that is too deep to be resolved is kept as it was spelt too, and a spelling may be too long
to be opened where another one is not.
-/

namespace ScriptAssembly

namespace PathSet

variable {paths others : PathSet} {p q : Path}

theorem contains_of_perm (hperm : paths.toList.Perm others.toList) (p : Path) :
    paths.contains p = others.contains p := by
  rw [Bool.eq_iff_iff, contains, contains, List.any_eq_true, List.any_eq_true]
  exact exists_congr fun q => and_congr_left fun _ => hperm.mem_iff

/-- Listings of the same members stay such. -/
theorem toList_insert_perm (hperm : paths.toList.Perm others.toList) (p : Path) :
    (paths.insert p).toList.Perm (others.insert p).toList := by
  rw [toList_insert, toList_insert, contains_of_perm hperm p]
  split
  · exact hperm
  · exact hperm.append_right [p]

theorem toList_insertMany_perm (hperm : paths.toList.Perm others.toList) (added : List Path) :
    (paths.insertMany added).toList.Perm (others.insertMany added).toList := by
  induction added generalizing paths others with
  | nil => exact hperm
  | cons p added ih => exact ih (toList_insert_perm hperm p)

/-- Two paths can be added in either order if they have no other common spelling. -/
theorem toList_insert_comm (paths : PathSet) (hspelt : p.Same q → p = q) :
    ((paths.insert p).insert q).toList.Perm ((paths.insert q).insert p).toList := by
  by_cases hp : paths.contains p = true
  · have hlater : (paths.insert q).contains p = true := by rw [contains_insert, hp, Bool.true_or]
    rw [insert_of_contains hp, insert_of_contains hlater]
  · by_cases hq : paths.contains q = true
    · have hlater : (paths.insert p).contains q = true := by
        rw [contains_insert, hq, Bool.true_or]
      rw [insert_of_contains hq, insert_of_contains hlater]
    · by_cases hsame : p.Same q
      · rw [hspelt hsame]
      · rw [Bool.not_eq_true] at hp hq
        have hback : ¬q.Same p := fun hsym => hsame hsym.symm
        have hnewq : (paths.insert p).contains q = false := by
          rw [contains_insert, hq, decide_eq_false hsame, Bool.or_false]
        have hnewp : (paths.insert q).contains p = false := by
          rw [contains_insert, hp, decide_eq_false hback, Bool.or_false]
        simp only [toList_insert, hnewq, hnewp, hp, hq, Bool.false_eq_true, if_false,
          List.append_assoc]
        exact (List.Perm.swap q p []).append_left paths.toList

/-- Paths of places can be added in any order. -/
theorem toList_insertMany_of_perm {added anew : List Path} (paths : PathSet)
    (hplaced : ∀ p ∈ added, p.IsPlaced) (hperm : added.Perm anew) :
    (paths.insertMany added).toList.Perm (paths.insertMany anew).toList := by
  induction hperm generalizing paths with
  | nil => exact .refl _
  | cons p _ ih => exact ih (paths.insert p) fun q hq => hplaced q (List.mem_cons_of_mem p hq)
  | swap p q rest =>
      refine toList_insertMany_perm (toList_insert_comm paths ?_) rest
      exact (hplaced q List.mem_cons_self).eq_of_same
        (hplaced p (List.mem_cons_of_mem q List.mem_cons_self))
  | trans hfirst _ ihfirst ihsecond =>
      exact (ihfirst paths hplaced).trans
        (ihsecond paths fun p hp => hplaced p (hfirst.mem_iff.mpr hp))

end PathSet

namespace Machine

variable {m : Machine} {paths others : List Path}

/-- Files scan alike in any order. -/
theorem scanFiles_of_perm (hperm : paths.Perm others) :
    (∃ e later, m.scanFiles paths = .error e ∧ m.scanFiles others = .error later) ∨
    ∃ symbols, m.scanFiles paths = .ok symbols ∧ m.scanFiles others = .ok symbols := by
  have hline : ∀ line, m.HasLine paths line ↔ m.HasLine others line := by
    intro line
    simp only [HasLine, hperm.mem_iff]
  have hread : m.CanRead paths ↔ m.CanRead others := by
    unfold CanRead
    simp only [hperm.mem_iff]
  by_cases hcan : m.CanRead paths
  · obtain ⟨symbols, hscan, hsymbols⟩ := scanFiles_of_canRead hcan
    obtain ⟨same, hsame, hmembers⟩ := scanFiles_of_canRead (hread.mp hcan)
    refine .inr ⟨symbols, hscan, hsame.trans (congrArg _ (SymbolSet.ext_mem fun name => ?_))⟩
    simp only [hsymbols, hmembers, hline]
  · cases hscan : m.scanFiles paths with
    | ok symbols => exact absurd (canRead_of_scanFilesFrom hscan) hcan
    | error e =>
        cases hlater : m.scanFiles others with
        | ok symbols => exact absurd (hread.mpr (canRead_of_scanFilesFrom hlater)) hcan
        | error later => exact .inl ⟨e, later, rfl, rfl⟩

end Machine

namespace Session

/-- An input that is picked. -/
inductive Pick where
  /-- A binary to link against. -/
  | reference (p : Path)
  /-- A folder with the sources below it. -/
  | folder (p : Path)
  /-- A source file. -/
  | source (p : Path)
deriving DecidableEq

/-- The session after a pick on a machine, with a collector for folders. -/
def pick (m : Machine) (c : Collector) (s : Session) : Pick → Session
  | .reference p => s.addReference m p
  | .folder p => s.addFolder m c p
  | .source p => s.addSource m p

/-- A reference and a source are picked only as files; any folder may be picked. -/
def Pick.Present (m : Machine) : Pick → Prop
  | .reference p => m.isFile p
  | .folder _ => True
  | .source p => m.isFile p

/-- A source that is picked is resolved, and so is the identity of a folder that exists. -/
def Pick.Resolved (m : Machine) : Pick → Prop
  | .reference _ => True
  | .folder p => m.Resolves (m.identity p)
  | .source p => m.Resolves p

/-- Two sessions hold the same inputs: sources in some order, references and folders in some order
and spelling. -/
structure Alike (s other : Session) : Prop where
  /-- The references are the same, in some spelling. -/
  references : ∀ p, s.references.contains p = other.references.contains p
  /-- The folders are the same, in some spelling. -/
  folders : ∀ p, s.folders.contains p = other.folders.contains p
  /-- The sources are the same. -/
  sources : s.sources.toList.Perm other.sources.toList

variable {m : Machine} {c : Collector} {s other third : Session} {first second : Pick}

theorem Alike.refl (s : Session) : s.Alike s := ⟨fun _ => rfl, fun _ => rfl, .refl _⟩

theorem Alike.trans (halike : s.Alike other) (hnext : other.Alike third) : s.Alike third :=
  ⟨fun p => (halike.references p).trans (hnext.references p),
    fun p => (halike.folders p).trans (hnext.folders p), halike.sources.trans hnext.sources⟩

/-- The same pick keeps sessions alike. -/
theorem Alike.pick (halike : s.Alike other) (next : Pick) :
    (s.pick m c next).Alike (other.pick m c next) := by
  cases next with
  | reference p =>
      refine ⟨fun q => ?_, halike.folders, halike.sources⟩
      simp only [Session.pick, addReference, PathSet.contains_insert, halike.references]
  | source p =>
      exact ⟨halike.references, halike.folders, PathSet.toList_insert_perm halike.sources _⟩
  | folder p =>
      simp only [Session.pick, addFolder, halike.folders]
      split
      · exact halike
      · refine ⟨halike.references, fun q => ?_, PathSet.toList_insertMany_perm halike.sources _⟩
        simp only [PathSet.contains_insert, halike.folders]

theorem Alike.picks (halike : s.Alike other) (picks : List Pick) :
    (picks.foldl (Session.pick m c) s).Alike (picks.foldl (Session.pick m c) other) := by
  induction picks generalizing s other with
  | nil => exact halike
  | cons next picks ih => exact ih (halike.pick next)

theorem pick_reference (p : Path) : s.pick m c (.reference p) =
    { s with references := s.references.insert (m.identity p) } := rfl

theorem pick_source (p : Path) : s.pick m c (.source p) =
    { s with sources := s.sources.insert (m.identity p) } := rfl

theorem pick_folder_of_contains {folder : Path} (hknown : s.folders.contains (m.identity folder)) :
    s.pick m c (.folder folder) = s := addFolder_of_contains hknown

theorem pick_folder_of_new {folder : Path}
    (hnew : s.folders.contains (m.identity folder) = false) :
    s.pick m c (.folder folder) = { s with
      folders := s.folders.insert (m.identity folder)
      sources := s.sources.insertMany (c.collect m (m.identity folder)) } := addFolder_of_new hnew

/-- A reference and an input of another kind can change places. -/
theorem pick_reference_comm (p : Path) (hother : ∀ q, second ≠ .reference q) :
    (s.pick m c (.reference p)).pick m c second = (s.pick m c second).pick m c (.reference p) := by
  cases second with
  | reference q => exact absurd rfl (hother q)
  | source q => rfl
  | folder q =>
      have hkept : (s.pick m c (.reference p)).folders = s.folders := by rw [pick_reference]
      cases hknown : s.folders.contains (m.identity q) with
      | true => rw [pick_folder_of_contains hknown, pick_folder_of_contains (by rw [hkept, hknown])]
      | false =>
          rw [pick_folder_of_new hknown, pick_folder_of_new (by rw [hkept, hknown])]
          simp only [pick_reference]

theorem folders_pick_folder (folder : Path) :
    (s.pick m c (.folder folder)).folders = s.folders.insert (m.identity folder) := by
  cases hknown : s.folders.contains (m.identity folder) with
  | true => rw [pick_folder_of_contains hknown, PathSet.insert_of_contains hknown]
  | false => rw [pick_folder_of_new hknown]

theorem pick_source_folder_comm (hnamed : m.disk.Named) {p folder : Path} (hfile : m.isFile p)
    (hp : m.Resolves p) (hfolder : m.Resolves (m.identity folder)) :
    ((s.pick m c (.source p)).pick m c (.folder folder)).Alike
      ((s.pick m c (.folder folder)).pick m c (.source p)) := by
  have hkept : (s.pick m c (.source p)).folders = s.folders := by rw [pick_source]
  cases hknown : s.folders.contains (m.identity folder) with
  | true =>
      rw [pick_folder_of_contains hknown, pick_folder_of_contains (by rw [hkept, hknown])]
      exact .refl _
  | false =>
      obtain ⟨place, hleads⟩ := Machine.leadsTo_of_isFile hfile
      have hplaced := Machine.isPlaced_identity hnamed hleads (hp place hleads)
      rw [pick_folder_of_new hknown, pick_folder_of_new (by rw [hkept, hknown])]
      simp only [pick_source]
      refine ⟨fun _ => rfl, fun _ => rfl, ?_⟩
      have hperm : List.Perm ([m.identity p] ++ c.collect m (m.identity folder))
          (c.collect m (m.identity folder) ++ [m.identity p]) := List.perm_append_comm
      have hsources := PathSet.toList_insertMany_of_perm s.sources (fun q hq => ?_) hperm
      · rwa [PathSet.insertMany_append, PathSet.insertMany_append, PathSet.insertMany_singleton,
          PathSet.insertMany_singleton] at hsources
      · rcases List.mem_append.mp hq with hfirst | hlisted
        · exact List.mem_singleton.mp hfirst ▸ hplaced
        · exact Collector.isPlaced_of_mem_collect_of_resolves hnamed hfolder hlisted

/-- Two folders can change places. -/
theorem pick_folders_comm (hnamed : m.disk.Named) {folder next : Path}
    (hresolved : m.Resolves (m.identity folder)) (hother : m.Resolves (m.identity next)) :
    ((s.pick m c (.folder folder)).pick m c (.folder next)).Alike
      ((s.pick m c (.folder next)).pick m c (.folder folder)) := by
  have hlater := fun known added : Path => congrArg (fun folders : PathSet => folders.contains
    (m.identity known)) (folders_pick_folder (m := m) (c := c) (s := s) added)
  simp only [PathSet.contains_insert] at hlater
  cases hfolder : s.folders.contains (m.identity folder) with
  | true =>
      have hstill : (s.pick m c (.folder next)).folders.contains (m.identity folder) := by
        rw [hlater, hfolder, Bool.true_or]
      rw [pick_folder_of_contains hfolder, pick_folder_of_contains hstill]
      exact .refl _
  | false =>
      cases hnext : s.folders.contains (m.identity next) with
      | true =>
          have hstill : (s.pick m c (.folder folder)).folders.contains (m.identity next) := by
            rw [hlater, hnext, Bool.true_or]
          rw [pick_folder_of_contains hnext, pick_folder_of_contains hstill]
          exact .refl _
      | false =>
          have hback : (m.identity next).Same (m.identity folder) ↔
              (m.identity folder).Same (m.identity next) := ⟨.symm, .symm⟩
          by_cases hsame : (m.identity folder).Same (m.identity next)
          · -- The second spelling adds nothing, and both spellings list the same files.
            have hfirst : (s.pick m c (.folder folder)).folders.contains (m.identity next) := by
              rw [hlater, decide_eq_true hsame, Bool.or_true]
            have hsecond : (s.pick m c (.folder next)).folders.contains (m.identity folder) := by
              rw [hlater, decide_eq_true (hback.mpr hsame), Bool.or_true]
            rw [pick_folder_of_contains hfirst, pick_folder_of_contains hsecond,
              pick_folder_of_new hfolder, pick_folder_of_new hnext,
              Collector.collect_of_same hnamed hsame hresolved hother]
            refine ⟨fun _ => rfl, fun p => ?_, .refl _⟩
            rw [PathSet.contains_insert, PathSet.contains_insert]
            refine congrArg (s.folders.contains p || ·) (decide_eq_decide.mpr ?_)
            exact ⟨hsame.symm.trans, hsame.trans⟩
          · have hfirst : (s.pick m c (.folder folder)).folders.contains (m.identity next) =
                false := by
              rw [hlater, hnext, decide_eq_false hsame, Bool.or_false]
            have hsecond : (s.pick m c (.folder next)).folders.contains (m.identity folder) =
                false := by
              rw [hlater, hfolder, decide_eq_false (mt hback.mp hsame), Bool.or_false]
            rw [pick_folder_of_new hfirst, pick_folder_of_new hsecond,
              pick_folder_of_new hfolder, pick_folder_of_new hnext]
            refine ⟨fun _ => rfl, fun p => ?_, ?_⟩
            · simp only [PathSet.contains_insert, Bool.or_right_comm]
            · rw [← PathSet.insertMany_append, ← PathSet.insertMany_append]
              refine PathSet.toList_insertMany_of_perm s.sources (fun q hq => ?_)
                List.perm_append_comm
              rcases List.mem_append.mp hq with hlisted | hlisted
              · exact Collector.isPlaced_of_mem_collect_of_resolves hnamed hresolved hlisted
              · exact Collector.isPlaced_of_mem_collect_of_resolves hnamed hother hlisted

theorem toList_insert_identity_comm (hnamed : m.disk.Named) (paths : PathSet) {p q : Path}
    (hp : m.isFile p) (hq : m.isFile q) (hresolved : m.Resolves p) (hother : m.Resolves q) :
    ((paths.insert (m.identity p)).insert (m.identity q)).toList.Perm
      ((paths.insert (m.identity q)).insert (m.identity p)).toList := by
  obtain ⟨place, hleads⟩ := Machine.leadsTo_of_isFile hp
  obtain ⟨target, hbeside⟩ := Machine.leadsTo_of_isFile hq
  have hplaced := Machine.isPlaced_identity hnamed hleads (hresolved place hleads)
  exact PathSet.toList_insert_comm paths
    (hplaced.eq_of_same (Machine.isPlaced_identity hnamed hbeside (hother target hbeside)))

/-- Two neighbouring picks can change places. -/
theorem pick_comm (hnamed : m.disk.Named) (hfirst : first.Present m) (hsecond : second.Present m)
    (hresolved : first.Resolved m) (hother : second.Resolved m) :
    ((s.pick m c first).pick m c second).Alike ((s.pick m c second).pick m c first) := by
  cases first with
  | reference p =>
      cases second with
      | reference q =>
          simp only [pick_reference]
          refine ⟨fun r => ?_, fun _ => rfl, .refl _⟩
          simp only [PathSet.contains_insert, Bool.or_right_comm]
      | folder q =>
          have hother : ∀ r, Pick.folder q ≠ .reference r := by rintro r ⟨⟩
          rw [pick_reference_comm p hother]
          exact .refl _
      | source q => exact .refl _
  | folder p =>
      cases second with
      | reference q =>
          have hother : ∀ r, Pick.folder p ≠ .reference r := by rintro r ⟨⟩
          rw [pick_reference_comm q hother]
          exact .refl _
      | folder q => exact pick_folders_comm hnamed hresolved hother
      | source q =>
          have hback := @pick_source_folder_comm m c s hnamed q p hsecond hother hresolved
          exact ⟨fun r => (hback.references r).symm, fun r => (hback.folders r).symm,
            hback.sources.symm⟩
  | source p =>
      cases second with
      | reference q => exact .refl _
      | folder q => exact pick_source_folder_comm hnamed hfirst hresolved hother
      | source q =>
          simp only [pick_source]
          exact ⟨fun _ => rfl, fun _ => rfl,
            toList_insert_identity_comm hnamed _ hfirst hsecond hresolved hother⟩

/-- Picks can be made in any order. -/
theorem alike_of_perm (hnamed : m.disk.Named) {picks others : List Pick}
    (hperm : picks.Perm others)
    (hpresent : ∀ pick ∈ picks, pick.Present m ∧ pick.Resolved m) (s : Session) :
    (picks.foldl (pick m c) s).Alike (others.foldl (pick m c) s) := by
  induction hperm generalizing s with
  | nil => exact .refl s
  | cons next _ ih =>
      exact ih (fun pick hpick => hpresent pick (List.mem_cons_of_mem next hpick)) _
  | swap first second rest =>
      obtain ⟨hsecond, hother⟩ := hpresent second List.mem_cons_self
      obtain ⟨hfirst, hresolved⟩ :=
        hpresent first (List.mem_cons_of_mem second List.mem_cons_self)
      exact (pick_comm hnamed hsecond hfirst hother hresolved).picks rest
  | trans hfirst _ ihfirst ihsecond =>
      exact (ihfirst hpresent s).trans
        (ihsecond (fun pick hpick => hpresent pick (hfirst.mem_iff.mpr hpick)) s)

theorem Alike.rescan (halike : s.Alike other) :
    (∃ e later, s.rescan m = .error e ∧ other.rescan m = .error later) ∨
    ∃ symbols, s.rescan m = .ok (s.withSymbols symbols) ∧
      other.rescan m = .ok (other.withSymbols symbols) := by
  unfold Session.rescan
  rcases Machine.scanFiles_of_perm (m := m) halike.sources with
    ⟨e, later, hscan, hother⟩ | ⟨symbols, hscan, hother⟩
  · rw [hscan, hother]
    exact .inl ⟨e, later, rfl, rfl⟩
  · rw [hscan, hother]
    exact .inr ⟨symbols, rfl, rfl⟩

/-- In whatever order inputs are picked, the session holds the same references, folders and sources,
none of them twice, and a scan of it fails or finds the same symbols, if the sources are resolved
and so are the identities of the folders that exist; a reference and a neighbour of another kind can
change places without any trace. -/
theorem inputs_of_picks (hnamed : m.disk.Named) (c : Collector) (s : Session)
    {picks others : List Pick} (hperm : picks.Perm others)
    (hpresent : ∀ pick ∈ picks, pick.Present m) (hresolved : ∀ pick ∈ picks, pick.Resolved m) :
    let made := picks.foldl (pick m c) s
    let remade := others.foldl (pick m c) s
    ((∀ p, made.references.contains p = remade.references.contains p) ∧
      (∀ p, made.folders.contains p = remade.folders.contains p) ∧
      ∀ p, made.sources.contains p = remade.sources.contains p) ∧
    (∀ session ∈ [made, remade], ∀ paths ∈ [session.references, session.folders, session.sources],
      paths.toList.Pairwise fun p q => ¬p.Same q) ∧
    ((∃ e later, made.rescan m = .error e ∧ remade.rescan m = .error later) ∨
      ∃ scanned rescanned, made.rescan m = .ok scanned ∧ remade.rescan m = .ok rescanned ∧
        scanned.symbols = rescanned.symbols ∧
        scanned.symbols.defineFlag? = rescanned.symbols.defineFlag?) ∧
    ∀ before p next after, (∀ q, next ≠ .reference q) →
      (before ++ .reference p :: next :: after).foldl (pick m c) s =
        (before ++ next :: .reference p :: after).foldl (pick m c) s := by
  have halike := alike_of_perm (c := c) hnamed hperm
    (fun pick hpick => ⟨hpresent pick hpick, hresolved pick hpick⟩) s
  refine ⟨⟨halike.references, halike.folders, PathSet.contains_of_perm halike.sources⟩,
    fun _ _ paths _ => paths.distinct, ?_, ?_⟩
  · rcases halike.rescan (m := m) with hfails | ⟨symbols, hscan, hother⟩
    · exact .inl hfails
    · exact .inr ⟨_, _, hscan, hother, rfl, rfl⟩
  · intro before p next after hnext
    rw [List.foldl_append, List.foldl_append, List.foldl_cons, List.foldl_cons, List.foldl_cons,
      List.foldl_cons, pick_reference_comm p hnext]

/-- A folder inside a folder, with a source in each, and a library. -/
def nestedFolders : Machine where
  disk := ⟨[(["a.dll"], .file .empty false), (["src"], .directory),
    (["src", "a.cs"], .file "#define A".toUTF8 false), (["src", "sub"], .directory),
    (["src", "sub", "b.cs"], .file "#if B".toUTF8 false)]⟩
  directory := []
  environment := []

theorem named_nestedFolders : nestedFolders.disk.Named := Disk.named_of_entries (by decide)

theorem isFile_source_nestedFolders : nestedFolders.isFile ⟨"src/../src/a.cs"⟩ := by
  have hfind : nestedFolders.find ⟨"src/../src/a.cs"⟩ =
      .ok (.found ["src", "a.cs"] (.file "#define A".toUTF8 false)) := by
    refine Disk.lookup_of_leads
      ["src".toList, "..".toList, "src".toList, "a.cs".toList] (by decide) rfl ?_
    exact .directory (by decide) rfl
      (.above (.directory (by decide) rfl (.file (by decide) rfl)))
  exact Machine.isFile_of_find hfind

theorem isFile_library_nestedFolders : nestedFolders.isFile ⟨"./a.dll"⟩ := by
  have hfind : nestedFolders.find ⟨"./a.dll"⟩ = .ok (.found ["a.dll"] (.file .empty false)) := by
    refine Disk.lookup_of_leads [".".toList, "a.dll".toList] (by decide) rfl ?_
    exact .silent (.inr rfl) (.file (by decide) rfl)
  exact Machine.isFile_of_find hfind

/-- A source, the folder that holds it, the folder inside that one, and a missing folder, with one
folder picked in two spellings. -/
def nestedPicks : List Pick :=
  [.source ⟨"src/../src/a.cs"⟩, .folder ⟨"src/sub"⟩, .reference ⟨"./a.dll"⟩, .folder ⟨"src"⟩,
    .folder ⟨"gone"⟩, .folder ⟨"/src//"⟩]

theorem inputs_of_picks_nestedFolders :
    (nestedFolders.disk.Named ∧ nestedPicks.Perm nestedPicks.reverse ∧
      (∀ pick ∈ nestedPicks, pick.Present nestedFolders) ∧
      ∀ pick ∈ nestedPicks, pick.Resolved nestedFolders) ∧
    ∀ p, (nestedPicks.foldl (pick nestedFolders ⟨"cs", true⟩) empty).sources.contains p =
      (nestedPicks.reverse.foldl (pick nestedFolders ⟨"cs", true⟩) empty).sources.contains p := by
  have hperm := (List.reverse_perm nestedPicks).symm
  have hresolves := Machine.resolves_of_short (m := nestedFolders)
    (Disk.short_of_entries (by decide))
  have hpresent : ∀ pick ∈ nestedPicks, pick.Present nestedFolders := by
    simp [nestedPicks, Pick.Present, isFile_source_nestedFolders, isFile_library_nestedFolders]
  have hresolved : ∀ pick ∈ nestedPicks, pick.Resolved nestedFolders := by
    simp [nestedPicks, Pick.Resolved, hresolves]
  have hpicks := inputs_of_picks named_nestedFolders ⟨"cs", true⟩ empty hperm hpresent hresolved
  exact ⟨⟨named_nestedFolders, hperm, hpresent, hresolved⟩, hpicks.1.2.2⟩

/-- A spelling of the path `/a` that is too long to be asked for. -/
def slashed : Path := ⟨"/a/" ++ .ofList (List.replicate pathLimit '/')⟩

theorem toList_slashed :
    slashed.text.toList = ['/', 'a'] ++ '/' :: List.replicate pathLimit '/' := by
  have hslashes : (String.ofList (List.replicate pathLimit '/')).toList =
      List.replicate pathLimit '/' := String.toList_ofList
  rw [slashed, String.toList_append, hslashes]
  generalize List.replicate pathLimit '/' = slashes
  rfl

theorem split_replicate_slash (count : Nat) :
    Text.split '/' (List.replicate count '/') = List.replicate (count + 1) [] := by
  induction count with
  | zero => rfl
  | succ count ih =>
      have hfirst : List.replicate (count + 1) '/' = [] ++ '/' :: List.replicate count '/' := rfl
      rw [hfirst, Text.split_append_cons, ih]
      rfl

theorem split_slashed : Text.split '/' slashed.text.toList =
    [] :: ['a'] :: List.replicate (pathLimit + 1) [] := by
  rw [toList_slashed, Text.split_append_cons, split_replicate_slash]
  rfl

theorem same_slashed : slashed.Same ⟨"/a"⟩ := by
  have hsilent :
      (List.replicate (pathLimit + 1) ([] : List Char)).filterMap Path.component? = [] := by
    refine List.filterMap_eq_nil_iff.mpr fun piece hpiece => ?_
    rw [List.eq_of_mem_replicate hpiece]
    rfl
  have hbehind := Path.components_append_slash ['/', 'a'] (List.replicate pathLimit '/')
  rw [split_replicate_slash, hsilent, List.append_nil, ← toList_slashed, String.ofList_toList]
    at hbehind
  exact hbehind.trans (by decide)

theorem size_slashed : slashed.text.utf8ByteSize = pathLimit + 3 := by
  have hfront : "/a/".utf8ByteSize = 3 := rfl
  rw [slashed, String.utf8ByteSize_append, size_ofList_replicate (by decide), hfront, Nat.add_comm]

theorem find_slashed (m : Machine) : m.find slashed = .error .nameTooLong := by
  have hclean : '\x00' ∉ slashed.text.toList := by
    rw [toList_slashed]
    simp
  rw [Machine.find, Disk.lookup, size_slashed, if_pos ⟨by omega, hclean⟩]

/-- If a folder that is too deep is picked first by a spelling that is too long, its source is not
found, and if it is picked first by another one, it is. -/
theorem inputs_of_deepSource :
    let m := Machine.deepSource
    let picks : List Pick := [.folder ⟨"/a"⟩, .folder slashed]
    let made := picks.foldl (pick m ⟨"cs", false⟩) empty
    let remade := picks.reverse.foldl (pick m ⟨"cs", false⟩) empty
    m.disk.Named ∧ (∀ pick ∈ picks, pick.Present m) ∧ picks.Perm picks.reverse ∧
    made.sources.contains ⟨"/a/f.cs"⟩ = true ∧ remade.sources.contains ⟨"/a/f.cs"⟩ = false := by
  intro m picks made remade
  have hfind : m.find ⟨"/a"⟩ = .ok (.found (rungs 17) .directory) :=
    Disk.lookup_of_leads ["".toList, ['a']] (by decide) rfl
      (Disk.leads_shaft (.inl rfl) fun links => .arrived)
  have hkept : m.identity ⟨"/a"⟩ = ⟨"/a"⟩ :=
    (Machine.identity_of_shaft rfl (by decide) (.inl rfl) rfl).2
  have hspelt : m.identity slashed = slashed :=
    (Machine.identity_of_shaft rfl (same_slashed.symm.isAbsolute) (.inl rfl) split_slashed).2
  have hroot : m.IsRoot ⟨"/a"⟩ (rungs 17) := by rw [Machine.IsRoot, hkept, hfind]
  have hlisted : ⟨"/a/f.cs"⟩ ∈ (Collector.mk "cs" false).collect m ⟨"/a"⟩ := by
    have hbottom : m.disk.at? (rungs 17) = some .directory := Disk.at?_rungs (Nat.le_refl 17)
    have hsource : m.disk.IsFileAt (rungs 17 ++ ["f.cs"]) :=
      ⟨.empty, false, (Disk.at?_concat hbottom).trans (Disk.noted?_bottom (List.cons_ne_nil _ _))⟩
    have hopens : Disk.Opens ⟨"/a"⟩ [] ["f.cs"] := by
      intro above habove hne
      obtain rfl : above = [] := by
        rcases List.prefix_cons_iff.mp habove with rfl | ⟨rest, rfl, hrest⟩
        · rfl
        · exact absurd (congrArg _ (List.prefix_nil.mp hrest)) hne
      decide
    rw [Collector.collect_of_isRoot hroot, hkept]
    refine List.mem_filter.mpr ⟨List.mem_map.mpr ⟨["f.cs"], ?_, by decide⟩, by decide⟩
    exact (Disk.mem_filesBelow_iff hbottom).mpr ⟨["f.cs"], rfl, hsource, hopens⟩
  have hclosed : (Collector.mk "cs" false).collect m slashed = [] := by
    refine Collector.collect_of_rootless fun root hroot => ?_
    rw [Machine.IsRoot, hspelt, find_slashed] at hroot
    cases hroot
  refine ⟨Machine.ordinary_deepSource.names, by simp [picks, Pick.Present],
    (List.reverse_perm picks).symm, ?_, ?_⟩
  · have hfirst : empty.pick m ⟨"cs", false⟩ (.folder ⟨"/a"⟩) = _ := pick_folder_of_new rfl
    rw [hkept] at hfirst
    have hsecond : made = empty.pick m ⟨"cs", false⟩ (.folder ⟨"/a"⟩) := by
      refine pick_folder_of_contains ?_
      rw [folders_pick_folder, hkept, hspelt, PathSet.contains_insert,
        decide_eq_true same_slashed.symm, Bool.or_true]
    rw [hsecond, hfirst]
    exact PathSet.contains_insertMany_of_mem hlisted
  · have hfirst : empty.pick m ⟨"cs", false⟩ (.folder slashed) = _ := pick_folder_of_new rfl
    rw [hspelt, hclosed] at hfirst
    have hsecond : remade = empty.pick m ⟨"cs", false⟩ (.folder slashed) := by
      refine pick_folder_of_contains ?_
      rw [folders_pick_folder, hkept, hspelt, PathSet.contains_insert,
        decide_eq_true same_slashed, Bool.or_true]
    rw [hsecond, hfirst]
    rfl

end Session

end ScriptAssembly
