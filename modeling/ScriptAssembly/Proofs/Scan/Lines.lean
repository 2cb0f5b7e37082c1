import Mathlib
import ScriptAssembly.Proofs.Sets
import ScriptAssembly.Session

/-!
# Symbols and the lines they stand on

A scan reads every line by itself and puts what it finds into a set.  So the symbols of some files
are those of their lines, and files with the same lines have the same symbols, in whatever order,
however often and in whichever of the files the lines stand.
-/

namespace ScriptAssembly

/-- The line stands in one of the files. -/
def Machine.HasLine (m : Machine) (paths : List Path) (line : List Char) : Prop :=
  ∃ p ∈ paths, ∃ content, m.readBytes p = .ok content ∧
    line ∈ Text.lines (Scan.dropMark (Text.lossy content))

/-- Every one of the paths leads to a file. -/
def Machine.CanRead (m : Machine) (paths : List Path) : Prop :=
  ∀ p ∈ paths, ∃ content, m.readBytes p = .ok content

namespace Scan

variable {name : String} {line : List Char}

theorem mem_lineSymbols :
    name ∈ lineSymbols line ↔ ∃ found, scanLine? line = some found ∧ name ∈ found.symbols := by
  unfold lineSymbols
  cases scanLine? line with
  | none => simp
  | some found => simp

theorem lineSymbols_nil : lineSymbols [] = [] := by decide

theorem mem_foldl_insertMany {lines : List (List Char)} {symbols : SymbolSet} :
    name ∈ (lines.foldl (fun found line => found.insertMany (lineSymbols line)) symbols).toList ↔
      name ∈ symbols.toList ∨ ∃ line ∈ lines, name ∈ lineSymbols line := by
  induction lines generalizing symbols with
  | nil => simp
  | cons line lines ih => simp [ih, or_assoc]

theorem mem_scanText {s : List Char} :
    name ∈ (scanText s).toList ↔ ∃ line ∈ Text.lines (dropMark s), name ∈ lineSymbols line := by
  rw [scanText, mem_foldl_insertMany]
  simp [SymbolSet.empty]

end Scan

namespace Machine

variable {m other : Machine} {paths others : List Path} {found symbols : SymbolSet}
  {name : String} {line : List Char}

theorem scanFile_of_readBytes {p : Path} {content : ByteArray}
    (hread : m.readBytes p = .ok content) : m.scanFile p = .ok (Scan.scanContent content) := by
  rw [scanFile, hread]

theorem hasLine_cons {p : Path} {content : ByteArray} (hread : m.readBytes p = .ok content) :
    m.HasLine (p :: paths) line ↔
      line ∈ Text.lines (Scan.dropMark (Text.lossy content)) ∨ m.HasLine paths line := by
  simp [HasLine, hread]

/-- Files that can be read have the symbols of their lines, added to those found before. -/
theorem scanFilesFrom_of_canRead (found : SymbolSet) (hread : m.CanRead paths) :
    ∃ symbols, m.scanFilesFrom found paths = .ok symbols ∧
      ∀ name, name ∈ symbols.toList ↔
        name ∈ found.toList ∨ ∃ line, m.HasLine paths line ∧ name ∈ Scan.lineSymbols line := by
  induction paths generalizing found with
  | nil => exact ⟨found, rfl, by simp [HasLine]⟩
  | cons p paths ih =>
      obtain ⟨content, hcontent⟩ := hread p List.mem_cons_self
      obtain ⟨symbols, hscan, hsymbols⟩ := ih (found.union (Scan.scanContent content))
        fun q hq => hread q (List.mem_cons_of_mem p hq)
      refine ⟨symbols, ?_, fun name => ?_⟩
      · rw [scanFilesFrom, scanFile_of_readBytes hcontent]
        exact hscan
      · simp only [hsymbols, SymbolSet.mem_union, Scan.scanContent, Scan.mem_scanText,
          hasLine_cons hcontent, or_assoc, or_and_right, exists_or]

theorem scanFiles_of_canRead (hread : m.CanRead paths) :
    ∃ symbols, m.scanFiles paths = .ok symbols ∧
      ∀ name, name ∈ symbols.toList ↔
        ∃ line, m.HasLine paths line ∧ name ∈ Scan.lineSymbols line := by
  obtain ⟨symbols, hscan, hsymbols⟩ := scanFilesFrom_of_canRead .empty hread
  refine ⟨symbols, hscan, fun name => ?_⟩
  rw [hsymbols]
  simp [SymbolSet.empty]

/-- The symbols of files that can be read are those that some rule finds on one of their lines, and
files that have the same lines, apart from empty ones, have the same symbols. -/
theorem scanFiles_determined_by_lines (m : Machine) (paths : List Path)
    (hread : m.CanRead paths) :
    ∃ symbols, m.scanFiles paths = .ok symbols ∧
      (∀ name, name ∈ symbols.toList ↔ ∃ line found, m.HasLine paths line ∧
        Scan.scanLine? line = some found ∧ name ∈ found.symbols) ∧
      ∀ (other : Machine) (others : List Path), other.CanRead others →
        (∀ line ≠ [], m.HasLine paths line ↔ other.HasLine others line) →
        other.scanFiles others = .ok symbols := by
  obtain ⟨symbols, hscan, hsymbols⟩ := scanFiles_of_canRead hread
  refine ⟨symbols, hscan, fun name => ?_, fun other others hothers hlines => ?_⟩
  · simp only [hsymbols, Scan.mem_lineSymbols, exists_and_left]
  · obtain ⟨same, hsame, hmembers⟩ := scanFiles_of_canRead hothers
    have hequal : same = symbols := by
      refine SymbolSet.ext_mem fun name => ?_
      rw [hmembers, hsymbols]
      -- An empty line has no symbol, so only the others have to be found on both sides.
      refine exists_congr fun line => and_congr_left fun hname => (hlines line ?_).symm
      rintro rfl
      simp [Scan.lineSymbols_nil] at hname
    rw [hsame, hequal]

/-- A disk on which the lines of one file stand in two others, behind a byte order mark and before
another line end. -/
def rearranged : Machine where
  disk := ⟨[(["a.cs"], .file "#define B\n#if A".toUTF8 false),
    (["b.cs"], .file "\uFEFF#if A\r\n".toUTF8 false), (["c.cs"], .file "#define B\n".toUTF8 false)]⟩
  directory := []
  environment := []

theorem hasLine_rearranged_together :
    rearranged.CanRead [⟨"/a.cs"⟩] ∧ ∀ line, rearranged.HasLine [⟨"/a.cs"⟩] line ↔
      line = "#define B".toList ∨ line = "#if A".toList := by
  have hread : rearranged.readBytes ⟨"/a.cs"⟩ = .ok "#define B\n#if A".toUTF8 := by cbv
  have htext : Text.lossy "#define B\n#if A".toUTF8 = "#define B\n#if A".toList := by cbv
  have hlines : Text.lines (Scan.dropMark "#define B\n#if A".toList) =
      ["#define B".toList, "#if A".toList] := by decide
  refine ⟨by simp [CanRead, hread], fun line => ?_⟩
  rw [hasLine_cons hread, htext, hlines]
  simp [HasLine]

theorem hasLine_rearranged_apart :
    rearranged.CanRead [⟨"/c.cs"⟩, ⟨"/b.cs"⟩, ⟨"/c.cs"⟩] ∧
      ∀ line, rearranged.HasLine [⟨"/c.cs"⟩, ⟨"/b.cs"⟩, ⟨"/c.cs"⟩] line ↔
        line = "#define B".toList ∨ line = "#if A".toList := by
  have hfirst : rearranged.readBytes ⟨"/c.cs"⟩ = .ok "#define B\n".toUTF8 := by cbv
  have hsecond : rearranged.readBytes ⟨"/b.cs"⟩ = .ok "\uFEFF#if A\r\n".toUTF8 := by cbv
  have hplain : Text.lossy "#define B\n".toUTF8 = "#define B\n".toList := by cbv
  have hmarked : Text.lossy "\uFEFF#if A\r\n".toUTF8 = "\uFEFF#if A\r\n".toList := by cbv
  have hone : Text.lines (Scan.dropMark "#define B\n".toList) = ["#define B".toList] := by decide
  have hother : Text.lines (Scan.dropMark "\uFEFF#if A\r\n".toList) = ["#if A".toList] := by
    decide
  refine ⟨by simp [CanRead, hfirst, hsecond], fun line => ?_⟩
  rw [hasLine_cons hfirst, hasLine_cons hsecond, hasLine_cons hfirst, hplain, hmarked, hone, hother]
  simp only [HasLine, List.mem_singleton, List.not_mem_nil, false_and, exists_false, or_false]
  rw [or_comm (a := line = "#if A".toList), ← or_assoc, or_self]

/-- The same symbols are found in the one file and in the two others. -/
theorem scanFiles_determined_by_lines_rearranged :
    rearranged.CanRead [⟨"/a.cs"⟩] ∧ rearranged.CanRead [⟨"/c.cs"⟩, ⟨"/b.cs"⟩, ⟨"/c.cs"⟩] ∧
    ∃ symbols, rearranged.scanFiles [⟨"/a.cs"⟩] = .ok symbols ∧ "A" ∈ symbols.toList ∧
      rearranged.scanFiles [⟨"/c.cs"⟩, ⟨"/b.cs"⟩, ⟨"/c.cs"⟩] = .ok symbols := by
  obtain ⟨htogether, hlines⟩ := hasLine_rearranged_together
  obtain ⟨hapart, hsame⟩ := hasLine_rearranged_apart
  obtain ⟨symbols, hscan, hmembers, hdetermined⟩ :=
    scanFiles_determined_by_lines rearranged [⟨"/a.cs"⟩] htogether
  have hfound : Scan.scanLine? "#if A".toList = some ⟨.expression, ["A"]⟩ := by decide +kernel
  refine ⟨htogether, hapart, symbols, hscan, ?_, ?_⟩
  · exact (hmembers "A").mpr
      ⟨_, _, (hlines _).mpr (.inr rfl), hfound, List.mem_singleton_self "A"⟩
  · exact hdetermined rearranged _ hapart fun line _ => (hlines line).trans (hsame line).symm

end Machine

end ScriptAssembly
