import ScriptAssembly.Proofs.Command.ScanThenBuild
import ScriptAssembly.Proofs.Path.Raw

/-!
# Listed paths can be typed back

A listing shows a path below the root of the project without the root and any other path in full.
A user may type what it shows, which is read from the root again, and that gives a spelling of the
path it was shown for if what is shown is text.  Hence no two different absolute paths of one list
are shown alike, for a configuration holds nothing but text.
-/

namespace ScriptAssembly

namespace RawPath

variable {p q root : RawPath}

/-- Text that is shown for a path is read as a spelling of it. -/
theorem same_join_display (hp : p.isAbsolute) (htext : (p.listed root).IsText) :
    (root.join (Path.mk (p.display root)).raw).Same p := by
  rw [display, htext.raw_shown]
  exact same_join_listed hp root

theorem same_of_display_eq (hp : p.isAbsolute) (hq : q.isAbsolute)
    (htext : (p.listed root).IsText) (hother : (q.listed root).IsText)
    (hshown : p.display root = q.display root) : p.Same q := by
  have hback := same_join_display hp htext
  rw [hshown] at hback
  exact hback.symm.trans (same_join_display hq hother)

end RawPath

namespace Layout

variable (l : Layout) {p q : Path}

/-- A path that is text is shown as it is written. -/
theorem display_eq (p : Path) : l.display p = ((p.below? l.root).getD p).text := by
  rw [display, RawPath.display, RawPath.listed_raw, RawPath.shown_raw]

/-- What is shown for a path is read as a spelling of it. -/
theorem same_resolve_display (hp : p.isAbsolute) : (l.resolve ⟨l.display p⟩).Same p := by
  rw [← RawPath.same_raw_iff, resolve, RawPath.raw_join]
  exact RawPath.same_join_display (by rwa [RawPath.isAbsolute_raw])
    (RawPath.isText_listed p l.root.raw)

theorem same_of_display_eq (hp : p.isAbsolute) (hq : q.isAbsolute)
    (hshown : l.display p = l.display q) : p.Same q := by
  rw [← RawPath.isAbsolute_raw] at hp hq
  exact RawPath.same_raw_iff.mp (RawPath.same_of_display_eq hp hq
    (RawPath.isText_listed p l.root.raw) (RawPath.isText_listed q l.root.raw) hshown)

/-- The absolute members of a set are shown in different ways. -/
theorem nodup_display (paths : PathSet) :
    ((paths.toList.filter Path.isAbsolute).map l.display).Nodup := by
  rw [List.Nodup, List.pairwise_map]
  refine (paths.distinct.filter _).imp_of_mem fun hp hq hdistinct hshown => hdistinct ?_
  exact l.same_of_display_eq (List.mem_filter.mp hp).2 (List.mem_filter.mp hq).2 hshown

end Layout

/-- What is printed of the inputs that a session has picked. -/
def Session.shownInputs (l : Layout) (json : Bool) (s : Session) : String :=
  let shown := fun (paths : PathSet) => paths.toList.map l.display
  if json then
    let strings := fun (paths : PathSet) => Json.array ((shown paths).map .string)
    Json.pretty (.object [
      ("references", strings s.references),
      ("folders", strings s.folders),
      ("sources", strings s.sources),
      ("symbols", .string s.symbols.toDelimited),
      ("output_name", .string s.outputName),
      ("output_kind", s.outputKind.toJson)]) ++ "\n"
  else
    .join <| (Command.listing "References" (shown s.references) ++
      Command.listing "Folders" (shown s.folders) ++
      Command.listing "Sources" (shown s.sources) ++
      [s!"Symbols: {Command.shownSymbols s.symbols}",
        s!"Output: {s.outputName} ({s.outputKind.title})"]).map (· ++ "\n")

/-- A listing prints the inputs of the project that it opens, and changes nothing. -/
theorem Request.run_listInputs (host : Host) (root : String) (json : Bool) {m : Machine}
    {project : Project} (hopen : Project.openAt m root = .ok project) :
    (Request.listInputs root json).run host m =
      ⟨.ok (), m, project.config.session.shownInputs project.layout json⟩ := by
  simp only [run, command, Command.listInputs, run_bind, Command.run_openProject, hopen]
  cases json with
  | true => simp only [if_true, Command.printJson, Command.run_printLine, Session.shownInputs,
      String.empty_append]
  | false =>
      simp only [Bool.false_eq_true, if_false, run_bind, Command.run_printLines,
        Command.run_printLine, Session.shownInputs, List.map_append, List.map_cons, List.map_nil,
        String.join_append, String.join_cons, String.join_nil, String.append_empty,
        String.empty_append, String.append_assoc]

/-- What is shown for an absolute path and read from the root of the project is a spelling of that
path if it is text, which it is for every path that is text.  So absolute paths that are shown alike
by text are spellings of one path.  A listing shows every member of a list, and no two different
absolute ones alike. -/
theorem Layout.resolve_display :
    (∀ root p : RawPath, p.isAbsolute → (p.listed root).IsText →
      (root.join (Path.mk (p.display root)).raw).Same p) ∧
    (∀ root p q : RawPath, p.isAbsolute → q.isAbsolute → (p.listed root).IsText →
      (q.listed root).IsText → p.display root = q.display root → p.Same q) ∧
    (∀ (root : RawPath) (p : Path), (p.raw.listed root).IsText) ∧
    (∀ (l : Layout) (p : Path), p.isAbsolute → (l.resolve ⟨l.display p⟩).Same p) ∧
    ∀ (host : Host) (root : String) (json : Bool) (m : Machine) (project : Project),
      Project.openAt m root = .ok project →
        let report := (Request.listInputs root json).run host m
        let session := project.config.session
        (report.result = .ok () ∧ report.machine = m ∧
          report.printed = session.shownInputs project.layout json) ∧
        ∀ paths ∈ [session.references, session.folders, session.sources],
          ((paths.toList.filter Path.isAbsolute).map project.layout.display).Nodup := by
  refine ⟨fun root p => RawPath.same_join_display, fun root p q => RawPath.same_of_display_eq,
    fun root p => RawPath.isText_listed p root, fun l p => l.same_resolve_display, ?_⟩
  intro host root json m project hopen report session
  have hreport : report = ⟨.ok (), m, session.shownInputs project.layout json⟩ :=
    Request.run_listInputs host root json hopen
  rw [hreport]
  exact ⟨⟨rfl, rfl, rfl⟩, fun paths _ => project.layout.nodup_display paths⟩

/-- A root that is no text, `/` and a broken byte. -/
def brokenRoot : RawPath := ⟨⟨#[0x2F, 0xFF]⟩⟩

/-- The root itself is shown as an empty path, and a path that goes up and down again is not
shortened.  Below a root that is no text, text is shown. -/
theorem Layout.resolve_display_draft :
    let session : Session := { Session.empty with
      folders := .ofList [⟨"/w//"⟩]
      sources := .ofList [⟨"/w/src/a.cs"⟩, ⟨"/w/../w/src/a.cs"⟩, ⟨"/v//a.cs"⟩] }
    let config := (Config.new "demo").withSession session
    let report := (Request.listInputs "/w" false).run .idle (draft config [])
    let below := brokenRoot.join (Path.mk "a.cs").raw
    let twice := brokenRoot.join (Path.mk ".//a.cs").raw
    (below.isAbsolute ∧ twice.isAbsolute ∧ below ≠ twice ∧ below.listed brokenRoot =
      (Path.mk "a.cs").raw ∧ twice.display brokenRoot = below.display brokenRoot ∧
      (brokenRoot.join (Path.mk (below.display brokenRoot)).raw).Same below ∧ twice.Same below) ∧
    (Path.isAbsolute ⟨"/w//"⟩ ∧ draftLayout.display ⟨"/w//"⟩ = "" ∧
      (draftLayout.resolve ⟨draftLayout.display ⟨"/w//"⟩⟩).Same ⟨"/w//"⟩) ∧
    Project.openAt (draft config []) "/w" = .ok ⟨draftLayout, config⟩ ∧
    report.result = .ok () ∧
    report.printed = "References (0):\n  (none)\nFolders (1):\n  - \n" ++
      "Sources (3):\n  - src/a.cs\n  - ../w/src/a.cs\n  - /v//a.cs\n" ++
      "Symbols: (none)\nOutput: CompiledScripts.dll (Library)\n" := by
  intro session config report below twice
  have hbelow : below.isAbsolute := by decide +kernel
  have htwice : twice.isAbsolute := by decide +kernel
  have hdiffer : below ≠ twice := fun hsame =>
    absurd (congrArg RawPath.octets hsame) (by decide +kernel)
  have hlisted : below.listed brokenRoot = (Path.mk "a.cs").raw :=
    RawPath.octets_injective (by decide +kernel)
  have hother : twice.listed brokenRoot = (Path.mk "a.cs").raw :=
    RawPath.octets_injective (by decide +kernel)
  have htext : (below.listed brokenRoot).IsText := ⟨_, hlisted.symm⟩
  have halike : twice.display brokenRoot = below.display brokenRoot := by
    rw [RawPath.display, RawPath.display, hlisted, hother]
  have hslashes : Path.isAbsolute ⟨"/w//"⟩ := by decide
  have hopen := openAt_draft config []
  obtain ⟨hback, hinjective, -, hresolve, hlist⟩ := resolve_display
  obtain ⟨⟨hresult, -, hprinted⟩, -⟩ := hlist .idle "/w" false _ _ hopen
  refine ⟨⟨hbelow, htwice, hdiffer, hlisted, halike, hback _ _ hbelow htext,
    hinjective _ _ _ htwice hbelow ⟨_, hother.symm⟩ htext halike⟩,
    ⟨hslashes, ?_, hresolve draftLayout _ hslashes⟩, hopen, hresult, ?_⟩
  · rw [display_eq]
    decide
  · rw [hprinted]
    simp only [Session.shownInputs, funext (display_eq draftLayout)]
    decide +kernel

/-- Two paths that are no text are shown alike, so what is shown does not lead back to both. -/
theorem RawPath.display_of_broken :
    let root : RawPath := (Path.mk "/w").raw
    let p : RawPath := ⟨⟨#[0x2F, 0x76, 0x2F, 0xFF, 0x2E, 0x63, 0x73]⟩⟩
    let q : RawPath := ⟨⟨#[0x2F, 0x76, 0x2F, 0xFE, 0x2E, 0x63, 0x73]⟩⟩
    p.isAbsolute ∧ q.isAbsolute ∧ ¬p.Same q ∧ p.display root = q.display root ∧
      ¬(root.join (Path.mk (p.display root)).raw).Same p := by
  intro root p q
  have hp : p.listed root = p := octets_injective (by decide +kernel)
  have hq : q.listed root = q := octets_injective (by decide +kernel)
  have hshown : p.display root = "/v/\uFFFD.cs" := by
    rw [display, hp, shown]
    cbv
  have hother : q.display root = "/v/\uFFFD.cs" := by
    rw [display, hq, shown]
    cbv
  refine ⟨by decide +kernel, by decide +kernel, by decide +kernel, hshown.trans hother.symm, ?_⟩
  rw [hshown]
  decide +kernel

end ScriptAssembly
