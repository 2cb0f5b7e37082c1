import ScriptAssembly.Proofs.Collect.Identity
import ScriptAssembly.Proofs.Command.Pipeline

/-!
# Picked folders

Picking a folder only appends: the folder joins the folders and the sources below it that are new
join the sources, in the order in which they are collected and behind all that were there.  A folder
that is there already brings nothing, whatever has become of the files below it.  Dropping a folder
leaves the sources alone.  So whatever folders are picked and dropped, and whatever happens on the
machine between, the sources that a session has had stay in front, and what a command counts as new
is what it has appended.
-/

namespace ScriptAssembly

namespace PathSet

variable {paths : PathSet} {p : Path} {listed : List Path}

/-- The listed paths that are no members; of several spellings of one path the first one. -/
def fresh (paths : PathSet) : List Path → List Path
  | [] => []
  | p :: listed =>
    if paths.contains p then paths.fresh listed else p :: (paths.insert p).fresh listed

/-- Exactly the fresh ones of the paths that are added are appended. -/
theorem toList_insertMany_eq (paths : PathSet) (listed : List Path) :
    (paths.insertMany listed).toList = paths.toList ++ paths.fresh listed := by
  induction listed generalizing paths with
  | nil => exact (List.append_nil _).symm
  | cons p listed ih =>
      have hrest : (paths.insertMany (p :: listed)).toList =
          (paths.insert p).toList ++ (paths.insert p).fresh listed := ih (paths.insert p)
      rw [hrest, fresh]
      cases hknown : paths.contains p with
      | true => rw [insert_of_contains hknown, if_pos rfl]
      | false => simp [toList_insert, hknown]

theorem fresh_sublist (paths : PathSet) (listed : List Path) :
    (paths.fresh listed).Sublist listed := by
  induction listed generalizing paths with
  | nil => exact .slnil
  | cons p listed ih =>
      rw [fresh]
      split
      · exact (ih paths).cons p
      · exact (ih (paths.insert p)).cons_cons p

theorem contains_of_mem_fresh (hp : p ∈ paths.fresh listed) : paths.contains p = false := by
  have hdistinct := (paths.insertMany listed).distinct
  rw [toList_insertMany_eq, List.pairwise_append] at hdistinct
  rw [contains, List.any_eq_false]
  intro q hq
  simpa using hdistinct.2.2 q hq p hp

/-- Where no path is listed in two spellings, all listed paths that are no members are fresh. -/
theorem fresh_eq_filter (hdistinct : listed.Pairwise fun p q => ¬p.Same q) :
    paths.fresh listed = listed.filter fun p => !paths.contains p := by
  induction listed generalizing paths with
  | nil => rfl
  | cons p listed ih =>
      obtain ⟨hfirst, hrest⟩ := List.pairwise_cons.mp hdistinct
      rw [fresh, List.filter_cons]
      cases hknown : paths.contains p with
      | true => simpa using ih hrest
      | false =>
          -- None of the other paths is the one that has just been added.
          have hothers : (listed.filter fun q => !(paths.insert p).contains q) =
              listed.filter fun q => !paths.contains q := by
            refine List.filter_congr fun q hq => ?_
            rw [contains_insert, decide_eq_false (hfirst q hq), Bool.or_false]
          simp [ih hrest, hothers]

end PathSet

/-- No path is collected in two spellings. -/
theorem Collector.distinct_collect {m : Machine} (hnamed : m.disk.Named) (c : Collector)
    (folder : Path) : (c.collect m folder).Pairwise fun p q => ¬p.Same q := by
  exact (nodup_collect hnamed c folder).imp_of_mem fun hp hq hne hsame =>
    hne (eq_of_same_of_mem_collect hnamed hp hq hsame)

namespace Session

variable {m : Machine} {c : Collector} {folder p : Path} {s t : Session}

/-- The second session has all that the first one has but the folders, and its sources go on behind
those of the first one. -/
structure Continues (s t : Session) (added : List Path) : Prop where
  /-- The references are the same. -/
  references : t.references = s.references
  /-- The symbols are the same. -/
  symbols : t.symbols = s.symbols
  /-- The name of the binary is the same. -/
  outputName : t.outputName = s.outputName
  /-- The kind of binary is the same. -/
  outputKind : t.outputKind = s.outputKind
  /-- Sources are appended. -/
  sources : t.sources.toList = s.sources.toList ++ added

theorem Continues.refl (s : Session) : s.Continues s [] :=
  ⟨rfl, rfl, rfl, rfl, (List.append_nil _).symm⟩

theorem Continues.trans {u : Session} {added more : List Path} (hfirst : s.Continues t added)
    (hnext : t.Continues u more) : s.Continues u (added ++ more) where
  references := hnext.references.trans hfirst.references
  symbols := hnext.symbols.trans hfirst.symbols
  outputName := hnext.outputName.trans hfirst.outputName
  outputKind := hnext.outputKind.trans hfirst.outputKind
  sources := by rw [hnext.sources, hfirst.sources, List.append_assoc]

theorem Continues.size {added : List Path} (hcontinues : s.Continues t added) :
    t.sources.size = s.sources.size + added.length := by
  rw [PathSet.size, hcontinues.sources, List.length_append, PathSet.size]

/-- The sources that a folder brings. -/
def newSources (m : Machine) (c : Collector) (folder : Path) (s : Session) : List Path :=
  if s.folders.contains (m.identity folder) then []
  else s.sources.fresh (c.collect m (m.identity folder))

/-- Picking a folder appends it and the sources that it brings. -/
theorem continues_addFolder (m : Machine) (c : Collector) (folder : Path) (s : Session) :
    s.Continues (s.addFolder m c folder) (s.newSources m c folder) ∧
      (s.addFolder m c folder).folders = s.folders.insert (m.identity folder) := by
  unfold newSources
  cases hknown : s.folders.contains (m.identity folder) with
  | true =>
      rw [addFolder_of_contains hknown, if_pos rfl, PathSet.insert_of_contains hknown]
      exact ⟨.refl s, rfl⟩
  | false =>
      rw [addFolder_of_new hknown, if_neg Bool.false_ne_true]
      exact ⟨⟨rfl, rfl, rfl, rfl, s.sources.toList_insertMany_eq _⟩, rfl⟩

/-- Dropping a folder brings and takes no sources. -/
theorem continues_removeFolder (m : Machine) (folder : Path) (s : Session) :
    s.Continues (s.removeFolder m folder) [] :=
  ⟨rfl, rfl, rfl, rfl, (List.append_nil _).symm⟩

/-- A change of the folders of a session, on the machine as it is at that time. -/
inductive FolderChange where
  /-- A folder is picked. -/
  | add (m : Machine) (c : Collector) (folder : Path)
  /-- A folder is dropped. -/
  | remove (m : Machine) (folder : Path)

/-- The session after a change of its folders. -/
def changeFolder (s : Session) : FolderChange → Session
  | .add m c folder => s.addFolder m c folder
  | .remove m folder => s.removeFolder m folder

/-- The session after changes of its folders. -/
def changeFolders (s : Session) (changes : List FolderChange) : Session :=
  changes.foldl changeFolder s

/-- The change leaves a folder in place. -/
def FolderChange.Spares (root : Path) : FolderChange → Prop
  | .add .. => True
  | .remove m folder => ¬(m.identity folder).Same root

theorem exists_continues_changeFolder (s : Session) (change : FolderChange) :
    ∃ added, s.Continues (s.changeFolder change) added := by
  cases change with
  | add m c folder => exact ⟨_, (continues_addFolder m c folder s).1⟩
  | remove m folder => exact ⟨[], continues_removeFolder m folder s⟩

/-- Whatever folders are picked and dropped, the sources that were there stay in front. -/
theorem exists_continues_changeFolders (s : Session) (changes : List FolderChange) :
    ∃ added, s.Continues (s.changeFolders changes) added := by
  induction changes generalizing s with
  | nil => exact ⟨[], .refl s⟩
  | cons change changes ih =>
      obtain ⟨added, hfirst⟩ := s.exists_continues_changeFolder change
      obtain ⟨more, hrest⟩ := ih (s.changeFolder change)
      exact ⟨added ++ more, hfirst.trans hrest⟩

theorem contains_changeFolder {root : Path} {change : FolderChange} (hspares : change.Spares root)
    (hknown : s.folders.contains root = true) :
    (s.changeFolder change).folders.contains root = true := by
  cases change with
  | add m c folder =>
      rw [changeFolder, (continues_addFolder m c folder s).2, PathSet.contains_insert, hknown,
        Bool.true_or]
  | remove m folder => exact PathSet.contains_erase.mpr ⟨hknown, hspares⟩

theorem contains_changeFolders {root : Path} {changes : List FolderChange}
    (hspares : ∀ change ∈ changes, change.Spares root) (hknown : s.folders.contains root = true) :
    (s.changeFolders changes).folders.contains root = true := by
  induction changes generalizing s with
  | nil => exact hknown
  | cons change changes ih =>
      refine ih (fun other hother => hspares other (List.mem_cons_of_mem change hother)) ?_
      exact contains_changeFolder (hspares change List.mem_cons_self) hknown

/-- A folder that has been picked and not been dropped since brings nothing, whatever the machine
has become. -/
theorem addFolder_again {changes : List FolderChange}
    (hspares : ∀ change ∈ changes, change.Spares (m.identity folder)) {later : Machine}
    {again : Path} (hsame : (later.identity again).Same (m.identity folder)) (other : Collector) :
    let known := (s.addFolder m c folder).changeFolders changes
    known.addFolder later other again = known := by
  intro known
  have hpicked : (s.addFolder m c folder).folders.contains (m.identity folder) = true := by
    rw [(continues_addFolder m c folder s).2]
    exact PathSet.contains_insert_self _ _
  refine addFolder_of_contains ?_
  rw [PathSet.contains_congr hsame]
  exact contains_changeFolders hspares hpicked

/-- What is printed of a folder that brings sources. -/
def shownFolder (path : String) (known added : Nat) : String :=
  .join <| [s!"Added folder: {path}", s!"  New sources: {added}",
    s!"  Total sources: {known + added}"].map (· ++ "\n")

end Session

namespace Request

variable {m : Machine} {root path : String} {project : Project}

/-- A change that cannot fail is made in a project that can be opened, and the project is then
opened with it. -/
theorem reopened_of_update (host : Host) {request : Request}
    {change : Machine → Project → Session → Session}
    (hupdate : request.update? =
      some (root, fun m project session => .ok (change m project session)))
    (hopen : Project.openAt m root = .ok project) :
    (request.run host m).result = .ok () ∧ Project.openAt (request.run host m).machine root =
      .ok (project.withSession (change m project project.config.session)) := by
  obtain ⟨hresult, -, -, -, -, -, hreopen⟩ := run_of_change host hupdate hopen rfl
  exact ⟨hresult, hreopen⟩

/-- The report of a picked folder counts the sources that it brings. -/
theorem printed_addFolder (host : Host) (path : String)
    (hopen : Project.openAt m root = .ok project) :
    ((Request.addFolder root path).run host m).printed =
      Session.shownFolder path project.config.session.sources.size
        (project.config.session.newSources m project.collector
          (project.layout.resolve ⟨path⟩)).length := by
  have hchange : (fun m project session =>
      .ok (session.addFolder m project.collector (project.layout.resolve ⟨path⟩)) : Effect.Update)
        m project project.config.session = .ok (project.config.session.addFolder m project.collector
          (project.layout.resolve ⟨path⟩)) := rfl
  obtain ⟨hcontinues, -⟩ := Session.continues_addFolder m project.collector
    (project.layout.resolve ⟨path⟩) project.config.session
  generalize project.config.session.addFolder m project.collector
    (project.layout.resolve ⟨path⟩) = after at hchange hcontinues
  have hsize : (project.withSession after).config.session.sources.size = _ := hcontinues.size
  obtain ⟨saved, -, -, -, hsave, -⟩ := Project.saved_of_openAt hopen after
  have hsaved : Effect.save (project.withSession after) m = (.ok (), saved) := by
    rw [Effect.save, Effect.ofAction, hsave]
  rw [run, command, Command.addFolder, run_bind, Command.run_updateProject hopen hchange, hsaved]
  dsimp only
  rw [hsize, Nat.add_sub_cancel_left]
  simp only [run_bind, Command.run_printLine, Session.shownFolder, List.map_cons, List.map_nil,
    String.join_cons, String.join_nil, String.append_empty, String.empty_append,
    String.append_assoc]

end Request

/-- Picking a folder appends the folder, unless it is there, and the new ones of the sources that
are collected below it, and keeps all else.  It may be picked again without effect as long as it is
not dropped, and dropping it keeps the sources.  So in a run of such changes the sources that were
there stay in front.  The command saves the session that this makes and prints how many sources were
appended. -/
theorem Session.addFolder_appends :
    (∀ (m : Machine) (c : Collector) (folder : Path) (s : Session),
      s.Continues (s.addFolder m c folder) (s.newSources m c folder) ∧
      (s.folders.contains (m.identity folder) → s.addFolder m c folder = s) ∧
      (s.folders.contains (m.identity folder) = false →
        let after := s.addFolder m c folder
        let added := s.newSources m c folder
        let listed := c.collect m (m.identity folder)
        after.folders.toList = s.folders.toList ++ [m.identity folder] ∧
          added = s.sources.fresh listed ∧ added.Sublist listed ∧
          (∀ p ∈ added, s.sources.contains p = false) ∧
          (∀ p ∈ listed, after.sources.contains p = true) ∧
          (m.disk.Named → added = listed.filter fun p => !s.sources.contains p))) ∧
    (∀ (m : Machine) (c : Collector) (folder : Path) (s : Session) (changes : List FolderChange),
      (∀ change ∈ changes, change.Spares (m.identity folder)) →
        ∀ (later : Machine) (again : Path) (other : Collector),
          (later.identity again).Same (m.identity folder) →
            let known := (s.addFolder m c folder).changeFolders changes
            known.addFolder later other again = known) ∧
    (∀ (m : Machine) (folder : Path) (s : Session), s.Continues (s.removeFolder m folder) []) ∧
    (∀ (s : Session) (changes : List FolderChange),
      ∃ added, s.Continues (s.changeFolders changes) added) ∧
    ∀ (host : Host) (root path : String) (m : Machine) (project : Project),
      Project.openAt m root = .ok project →
        let report := (Request.addFolder root path).run host m
        let s := project.config.session
        let folder := project.layout.resolve ⟨path⟩
        let after := s.addFolder m project.collector folder
        let added := s.newSources m project.collector folder
        report.result = .ok () ∧
          Project.openAt report.machine root = .ok (project.withSession after) ∧
          after.sources.size = s.sources.size + added.length ∧
          report.printed = shownFolder path s.sources.size added.length := by
  refine ⟨fun m c folder s => ⟨(continues_addFolder m c folder s).1, addFolder_of_contains,
      fun hnew => ?_⟩,
    fun m c folder s changes hspares later again other hsame => addFolder_again hspares hsame other,
    continues_removeFolder, exists_continues_changeFolders,
    fun host root path m project hopen => ?_⟩
  · intro after added listed
    have hadded : added = s.sources.fresh listed := if_neg (by simp [hnew])
    refine ⟨?_, hadded, ?_, fun p hp => ?_, fun p hp => ?_, fun hnamed => ?_⟩
    · rw [(continues_addFolder m c folder s).2, PathSet.toList_insert, if_neg (by simp [hnew])]
    · exact hadded ▸ s.sources.fresh_sublist listed
    · exact PathSet.contains_of_mem_fresh (hadded ▸ hp)
    · have hsources : after.sources = s.sources.insertMany listed := sources_addFolder hnew
      exact hsources ▸ PathSet.contains_insertMany_of_mem hp
    · exact hadded.trans (PathSet.fresh_eq_filter (Collector.distinct_collect hnamed c _))
  · obtain ⟨hresult, hreopen⟩ :=
      @Request.reopened_of_update m root project host (.addFolder root path) _ rfl hopen
    exact ⟨hresult, hreopen, (continues_addFolder _ _ _ _).1.size,
      Request.printed_addFolder host path hopen⟩

/-- A folder brings a file and not the link to it that was picked before.  It is picked again when
both are gone. -/
theorem Session.addFolder_appends_twins :
    let s : Session := { Session.empty with sources := .ofList [⟨"/b.cs"⟩] }
    let after := s.addFolder Collector.twins ⟨"cs", true⟩ ⟨"/"⟩
    let emptied : Machine := { Collector.twins with disk := ⟨[]⟩ }
    let config := Config.new "demo"
    let report := (Request.addFolder "/w" "src").run .idle (draft config [])
    Collector.twins.disk.Named ∧ s.folders.contains (Collector.twins.identity ⟨"/"⟩) = false ∧
      after.folders.toList = [⟨"/"⟩] ∧ after.sources.toList = [⟨"/b.cs"⟩, ⟨"/a.cs"⟩] ∧
      (emptied.identity ⟨"/"⟩).Same (Collector.twins.identity ⟨"/"⟩) ∧
      after.addFolder emptied ⟨"cs", true⟩ ⟨"/"⟩ = after ∧
      Project.openAt (draft config []) "/w" = .ok ⟨draftLayout, config⟩ ∧
      report.printed = "Added folder: src\n  New sources: 1\n  Total sources: 1\n" := by
  intro s after emptied config report
  have hnew : s.folders.contains (Collector.twins.identity ⟨"/"⟩) = false := rfl
  obtain ⟨hcontinues, -, hbrings⟩ := addFolder_appends.1 Collector.twins ⟨"cs", true⟩ ⟨"/"⟩ s
  obtain ⟨hfolders, -, -, -, -, hadded⟩ := hbrings hnew
  have hadded := hadded Collector.named_twins
  rw [Collector.identity_root_twins] at hfolders hadded
  rw [Collector.collect_twins] at hadded
  have hsources := hcontinues.sources
  rw [hadded] at hsources
  have hleads : emptied.LeadsTo ⟨"/"⟩ [] := ⟨.directory, Disk.locate_of_lookup <|
    Disk.lookup_of_leads ["".toList, "".toList] (by decide) rfl
      (.silent (.inl rfl) (.silent (.inl rfl) .arrived))⟩
  have hsame : (emptied.identity ⟨"/"⟩).Same (Collector.twins.identity ⟨"/"⟩) := by
    have hshort : emptied.disk.Short := Disk.short_of_entries (by decide)
    rw [Machine.identity_of_leadsTo hleads (Machine.staysShort_of_leadsTo hshort hleads),
      Collector.identity_root_twins]
    decide
  have hagain := addFolder_appends.2.1 Collector.twins ⟨"cs", true⟩ ⟨"/"⟩ s [] nofun emptied ⟨"/"⟩
    ⟨"cs", true⟩ hsame
  have hopen := openAt_draft config []
  have hprinted := (addFolder_appends.2.2.2.2 .idle "/w" "src" _ _ hopen).2.2.2
  have hbrought : Session.empty.newSources (draft config []) ⟨"cs", false⟩ ⟨"/w/src"⟩ =
      [⟨"/w/src/a.cs"⟩] := by
    rw [newSources, identity_src_draft, collect_draft config [] rfl]
    decide
  refine ⟨Collector.named_twins, hnew, hfolders, hsources.trans (by decide), hsame, hagain, hopen,
    ?_⟩
  have hresolve : draftLayout.resolve ⟨"src"⟩ = ⟨"/w/src"⟩ := by decide
  have hcollector : (Project.mk draftLayout config).collector = ⟨"cs", false⟩ := by decide
  have hsession : config.session = Session.empty := rfl
  refine hprinted.trans ?_
  dsimp only
  rw [hresolve, hcollector, hsession, hbrought]
  decide +kernel

end ScriptAssembly
