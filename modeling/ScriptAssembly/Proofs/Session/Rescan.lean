import ScriptAssembly.Proofs.Scan.Names

/-!
# Rescanned sessions

A rescan reads every source and puts the union of their symbols in the place of the old symbols, of
which nothing is kept.  It fails for the first source that cannot be read, and for nothing else.
-/

namespace ScriptAssembly

namespace Machine

variable {m : Machine} {paths : List Path} {found symbols : SymbolSet} {name : String}
  {e : ScanError}

/-- The error names the first of the paths that cannot be read, and what is wrong with it. -/
def FirstUnread (m : Machine) (paths : List Path) (e : ScanError) : Prop :=
  ∃ before rest, paths = before ++ e.path :: rest ∧ m.CanRead before ∧
    m.readBytes e.path = .error e.cause

theorem canRead_nil (m : Machine) : m.CanRead [] := fun _ hp => absurd hp List.not_mem_nil

theorem canRead_cons {p : Path} {content : ByteArray} (hread : m.readBytes p = .ok content) :
    m.CanRead (p :: paths) ↔ m.CanRead paths := by
  simp [CanRead, hread]

theorem not_canRead_cons {p : Path} {cause : IoError} (hread : m.readBytes p = .error cause) :
    ¬m.CanRead (p :: paths) := by
  intro hcan
  obtain ⟨content, hcontent⟩ := hcan p List.mem_cons_self
  rw [hread] at hcontent
  cases hcontent

/-- Where the first path can be read, the first that cannot be is one of the others. -/
theorem firstUnread_cons {p : Path} {content : ByteArray} (hread : m.readBytes p = .ok content) :
    m.FirstUnread (p :: paths) e ↔ m.FirstUnread paths e := by
  constructor
  · rintro ⟨before, rest, hpaths, hbefore, hfails⟩
    cases before with
    | nil =>
        obtain ⟨rfl, -⟩ := List.cons.inj hpaths
        rw [hread] at hfails
        cases hfails
    | cons q before =>
        obtain ⟨rfl, rfl⟩ := List.cons.inj hpaths
        exact ⟨before, rest, rfl, (canRead_cons hread).mp hbefore, hfails⟩
  · rintro ⟨before, rest, rfl, hbefore, hfails⟩
    exact ⟨p :: before, rest, rfl, (canRead_cons hread).mpr hbefore, hfails⟩

theorem firstUnread_head {p : Path} {cause : IoError} (hread : m.readBytes p = .error cause) :
    m.FirstUnread (p :: paths) e ↔ e = ⟨p, cause⟩ := by
  constructor
  · rintro ⟨before, rest, hpaths, hbefore, hfails⟩
    cases before with
    | nil =>
        obtain ⟨rfl, -⟩ := List.cons.inj hpaths
        rw [hread] at hfails
        cases hfails
        rfl
    | cons q before =>
        obtain ⟨rfl, -⟩ := List.cons.inj hpaths
        exact absurd hbefore (not_canRead_cons hread)
  · rintro rfl
    exact ⟨[], paths, rfl, canRead_nil m, hread⟩

theorem scanFilesFrom_eq_error_iff :
    m.scanFilesFrom found paths = .error e ↔ m.FirstUnread paths e := by
  induction paths generalizing found with
  | nil => simp [scanFilesFrom, FirstUnread]
  | cons p paths ih =>
      rw [scanFilesFrom, scanFile]
      cases hread : m.readBytes p with
      | ok content => exact ih.trans (firstUnread_cons hread).symm
      | error cause =>
          rw [firstUnread_head hread, Except.error.injEq]
          exact eq_comm

theorem mem_scanFilesFrom (hscan : m.scanFilesFrom found paths = .ok symbols) :
    name ∈ symbols.toList ↔ name ∈ found.toList ∨
      ∃ p ∈ paths, ∃ one, m.scanFile p = .ok one ∧ name ∈ one.toList := by
  induction paths generalizing found with
  | nil =>
      cases hscan
      simp
  | cons p paths ih =>
      rw [scanFilesFrom] at hscan
      cases hone : m.scanFile p with
      | error cause =>
          rw [hone] at hscan
          cases hscan
      | ok one =>
          rw [hone] at hscan
          rw [ih hscan, SymbolSet.mem_union]
          simp [hone, or_assoc]

theorem exists_scanFiles_iff : (∃ symbols, m.scanFiles paths = .ok symbols) ↔ m.CanRead paths := by
  constructor
  · rintro ⟨symbols, hscan⟩
    exact canRead_of_scanFilesFrom hscan
  · intro hread
    obtain ⟨symbols, hscan, -⟩ := scanFiles_of_canRead hread
    exact ⟨symbols, hscan⟩

/-- The symbols of files are the union of those of each file. -/
theorem mem_scanFiles (hscan : m.scanFiles paths = .ok symbols) :
    name ∈ symbols.toList ↔ ∃ p ∈ paths, ∃ one, m.scanFile p = .ok one ∧ name ∈ one.toList := by
  rw [mem_scanFilesFrom hscan]
  simp [SymbolSet.empty]

end Machine

namespace Session

variable {m : Machine} {s after : Session} {e : ScanError}

/-- The symbols that a session has before a rescan do not matter. -/
theorem rescan_withSymbols (m : Machine) (s : Session) (symbols : SymbolSet) :
    (s.withSymbols symbols).rescan m = s.rescan m := rfl

theorem rescan_eq_ok_iff :
    s.rescan m = .ok after ↔ ∃ symbols,
      m.scanFiles s.sources.toList = .ok symbols ∧ after = s.withSymbols symbols := by
  unfold rescan
  cases m.scanFiles s.sources.toList with
  | error e => simp [Except.map]
  | ok symbols => simp [Except.map, eq_comm]

/-- A rescan succeeds exactly if every source can be read. -/
theorem exists_rescan_iff :
    (∃ after, s.rescan m = .ok after) ↔ m.CanRead s.sources.toList := by
  rw [← Machine.exists_scanFiles_iff]
  simp only [rescan_eq_ok_iff]
  constructor
  · rintro ⟨_, symbols, hsymbols, -⟩
    exact ⟨symbols, hsymbols⟩
  · rintro ⟨symbols, hsymbols⟩
    exact ⟨_, symbols, hsymbols, rfl⟩

theorem rescan_eq_error_iff :
    s.rescan m = .error e ↔ m.FirstUnread s.sources.toList e := by
  have hscan : m.scanFiles s.sources.toList = .error e ↔ m.FirstUnread s.sources.toList e :=
    Machine.scanFilesFrom_eq_error_iff
  rw [← hscan]
  unfold rescan
  cases m.scanFiles s.sources.toList <;> simp [Except.map]

/-- A rescan succeeds exactly if every source can be read.  It then changes nothing but the symbols,
which become the union of those of the sources whatever they were before, and a second rescan
changes nothing.  A rescan that fails names the first source that cannot be read. -/
theorem rescan_replaces_symbols (m : Machine) (s : Session) :
    ((∃ after, s.rescan m = .ok after) ↔ m.CanRead s.sources.toList) ∧
    (∀ after, s.rescan m = .ok after →
      after = { s with symbols := after.symbols } ∧
      (∀ name, name ∈ after.symbols.toList ↔
        ∃ p ∈ s.sources.toList, ∃ one, m.scanFile p = .ok one ∧ name ∈ one.toList) ∧
      (∀ symbols, (s.withSymbols symbols).rescan m = .ok after) ∧
      after.rescan m = .ok after) ∧
    ∀ e, s.rescan m = .error e ↔ m.FirstUnread s.sources.toList e := by
  refine ⟨exists_rescan_iff, fun after hscan => ?_, fun e => rescan_eq_error_iff⟩
  obtain ⟨symbols, hsymbols, rfl⟩ := rescan_eq_ok_iff.mp hscan
  refine ⟨rfl, fun name => Machine.mem_scanFiles hsymbols, fun others => ?_, ?_⟩
  · exact (rescan_withSymbols m s others).trans hscan
  · exact (rescan_withSymbols m s symbols).trans hscan

/-- The first of two missing sources is named, and without them the rescan settles. -/
theorem rescan_replaces_symbols_missing :
    let scanned := empty.withSymbols (.ofList ["OLD"])
    let missing := { scanned with sources := .ofList [⟨"/a.cs"⟩, ⟨"/d.cs"⟩, ⟨"/e.cs"⟩] }
    let whole := { scanned with sources := .ofList [⟨"/c.cs"⟩, ⟨"/a.cs"⟩] }
    missing.rescan .rearranged = .error ⟨⟨"/d.cs"⟩, .notFound⟩ ∧
      ∃ after, whole.rescan .rearranged = .ok after ∧ after.rescan .rearranged = .ok after := by
  intro scanned missing whole
  have hfirst : Machine.rearranged.readBytes ⟨"/a.cs"⟩ = .ok "#define B\n#if A".toUTF8 := by cbv
  have hother : Machine.rearranged.readBytes ⟨"/c.cs"⟩ = .ok "#define B\n".toUTF8 := by cbv
  have habsent : Machine.rearranged.readBytes ⟨"/d.cs"⟩ = .error .notFound := by cbv
  have hmissing : missing.sources.toList = [⟨"/a.cs"⟩, ⟨"/d.cs"⟩, ⟨"/e.cs"⟩] := by decide
  have hwhole : whole.sources.toList = [⟨"/c.cs"⟩, ⟨"/a.cs"⟩] := by decide
  have hbefore : Machine.rearranged.CanRead [⟨"/a.cs"⟩] :=
    (Machine.canRead_cons hfirst).mpr (Machine.canRead_nil _)
  constructor
  · exact ((rescan_replaces_symbols .rearranged missing).2.2 _).mpr
      ⟨[⟨"/a.cs"⟩], [⟨"/e.cs"⟩], hmissing, hbefore, habsent⟩
  · obtain ⟨hreads, hreplaces, -⟩ := rescan_replaces_symbols .rearranged whole
    rw [hwhole] at hreads
    obtain ⟨after, hscan⟩ := hreads.mpr ((Machine.canRead_cons hother).mpr hbefore)
    exact ⟨after, hscan, (hreplaces after hscan).2.2.2⟩

end Session

end ScriptAssembly
