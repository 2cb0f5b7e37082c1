import ScriptAssembly.Proofs.Scan.Lines
import ScriptAssembly.Proofs.Scan.Meaning

/-!
# Scanned names

No rule finds an empty name, and only an attribute names what is no word.  So the delimited text of
scanned symbols is empty only if there are none, and then no option switches anything on.
-/

namespace ScriptAssembly

namespace Scan

variable {name : String} {line : List Char}

theorem ofList_ne_empty {chars : List Char} (hchars : chars ≠ []) : String.ofList chars ≠ "" := by
  intro hempty
  exact hchars (by simpa using congrArg String.toList hempty)

/-- What a rule finds has a character, and only an attribute names what is no word. -/
theorem exists_ofList_of_finds {rule : LineRule} {symbols : List String}
    (hfinds : rule.Finds line symbols) (hname : name ∈ symbols) :
    ∃ chars, name = .ofList chars ∧ chars ≠ [] ∧
      (rule ≠ .attribute → ∀ c ∈ chars, Text.isWord c) := by
  cases hfinds with
  | definition hdefines _ =>
      obtain ⟨_, rfl, -, -, hwritten, hword, -⟩ := hdefines
      exact ⟨_, List.mem_singleton.mp hname, hwritten, fun _ => hword⟩
  | runs hruns =>
      obtain ⟨places, -, hplaces, rfl⟩ := hruns
      simp only [List.mem_filter, List.mem_map, Prod.exists] at hname
      obtain ⟨⟨run, ⟨before, _, hplace, rfl⟩, rfl⟩, -⟩ := hname
      have hrun := (hplaces before _).mp hplace
      exact ⟨_, rfl, hrun.ne_nil, fun _ => hrun.letters⟩
  | argument hattaches _ _ =>
      obtain ⟨_, rfl, hclosed⟩ := hattaches
      exact ⟨_, List.mem_singleton.mp hname, hclosed.ne_nil, fun hrule => absurd rfl hrule⟩
  | noDefinition | noArgument => cases hname

theorem ne_empty_of_mem_lineSymbols (hname : name ∈ lineSymbols line) : name ≠ "" := by
  obtain ⟨found, hfound, hmem⟩ := mem_lineSymbols.mp hname
  obtain ⟨rule, -, rfl⟩ := Option.map_eq_some_iff.mp hfound
  obtain ⟨chars, rfl, hwritten, -⟩ := exists_ofList_of_finds (finds_names line rule) hmem
  exact ofList_ne_empty hwritten

end Scan

namespace Machine

variable {m : Machine} {paths : List Path} {found symbols : SymbolSet}

theorem canRead_of_scanFilesFrom (hscan : m.scanFilesFrom found paths = .ok symbols) :
    m.CanRead paths := by
  induction paths generalizing found with
  | nil => simp [CanRead]
  | cons p paths ih =>
      rw [scanFilesFrom, scanFile] at hscan
      cases hread : m.readBytes p with
      | error e =>
          rw [hread] at hscan
          cases hscan
      | ok content =>
          rw [hread] at hscan
          rintro q hq
          rcases List.mem_cons.mp hq with rfl | hrest
          · exact ⟨content, hread⟩
          · exact ih hscan q hrest

theorem ne_empty_of_mem_scanFiles (hscan : m.scanFiles paths = .ok symbols) :
    ∀ name ∈ symbols.toList, name ≠ "" := by
  intro name hname
  obtain ⟨same, hsame, hmembers⟩ := scanFiles_of_canRead (canRead_of_scanFilesFrom hscan)
  rw [hscan] at hsame
  cases hsame
  obtain ⟨line, -, hline⟩ := (hmembers name).mp hname
  exact Scan.ne_empty_of_mem_lineSymbols hline

end Machine

namespace SymbolSet

theorem toDelimited_eq_empty_iff {symbols : SymbolSet}
    (hnames : ∀ name ∈ symbols.toList, name ≠ "") :
    symbols.toDelimited = "" ↔ symbols.isEmpty := by
  unfold toDelimited isEmpty
  cases hlist : symbols.toList with
  | nil => simp [Text.join]
  | cons name others =>
      have hname : name ≠ "" := hnames name (hlist ▸ List.mem_cons_self)
      cases others <;> simp [Text.join, hname]

/-- The option for scanned symbols holds their delimited text, and it is absent where that text is
empty. -/
theorem defineFlag?_of_ne_empty {symbols : SymbolSet}
    (hnames : ∀ name ∈ symbols.toList, name ≠ "") :
    symbols.defineFlag? =
      if symbols.toDelimited = "" then none else some ("/define:" ++ symbols.toDelimited) := by
  simp only [defineFlag?, toDelimited_eq_empty_iff hnames]

end SymbolSet

end ScriptAssembly
