import ScriptAssembly.Proofs.Scan.Blanks
import ScriptAssembly.Proofs.Scan.Lines
import ScriptAssembly.Proofs.Text.Utf8

/-!
# Lines of a file

The symbols of a file are those of its lines, and what a line gives depends on its own bytes only:
not on what is broken in another line, nor on how the line ends.  Just the first line differs from
the others, for a byte order mark before it is dropped.
-/

namespace ScriptAssembly.Scan

open Text

variable {name : String} {s a b line : List Char} {c : Char}

/-- Some piece between the line feeds of the text gives the name. -/
def Gives (s : List Char) (name : String) : Prop := ∃ piece ∈ split '\n' s, name ∈ lineSymbols piece

/-! ## Pieces and lines -/

theorem lineSymbols_append_return (line : List Char) :
    lineSymbols (line ++ ['\r']) = lineSymbols line := by
  have hreturn : Blank ['\r'] := List.all_eq_true.mp (by decide)
  have hclaim : claimant? (line ++ ['\r']) = claimant? line :=
    claimant?_surrounded blank_nil hreturn
  have hnames : ∀ rule : LineRule, rule.names (line ++ ['\r']) = rule.names line :=
    names_surrounded blank_nil hreturn
  simp only [lineSymbols, scanLine?, hclaim, hnames]

theorem lineSymbols_dropReturn (line : List Char) :
    lineSymbols (dropReturn line) = lineSymbols line := by
  rw [dropReturn]
  split
  · next hlast =>
    obtain ⟨front, rfl⟩ := List.getLast?_eq_some_iff.mp hlast
    rw [List.dropLast_concat, lineSymbols_append_return]
  · rfl

theorem mem_lastLine {piece : List Char} :
    (∃ line ∈ lastLine piece, name ∈ lineSymbols line) ↔ name ∈ lineSymbols piece := by
  cases piece with
  | nil => simp [lastLine, lineSymbols_nil]
  | cons c piece => simp [lastLine]

/-- The way a line ends does not matter. -/
theorem gives_iff_lines : Gives s name ↔ ∃ line ∈ lines s, name ∈ lineSymbols line := by
  obtain ⟨init, last, hpieces⟩ : ∃ init last, split '\n' s = init ++ [last] :=
    (List.eq_nil_or_concat' _).resolve_left (splitWhere_ne_nil _ s)
  have hlines : lines s = init.map dropReturn ++ lastLine last := by
    simp [lines, hpieces]
  rw [Gives, hpieces, hlines]
  simp only [List.mem_append, or_and_right, exists_or, List.mem_singleton, exists_eq_left,
    mem_lastLine, List.mem_map, exists_exists_and_eq_and, lineSymbols_dropReturn]

theorem mem_scanText_iff : name ∈ (scanText s).toList ↔ Gives (dropMark s) name := by
  rw [mem_scanText, gives_iff_lines]

theorem not_gives_nil : ¬Gives [] name := by
  simp [Gives, split, splitWhere, lineSymbols_nil]

theorem gives_newline : Gives (a ++ '\n' :: b) name ↔ Gives a name ∨ Gives b name := by
  rw [Gives, split, splitWhere_append_cut (by rfl)]
  simp only [List.mem_append, or_and_right, exists_or]
  rfl

theorem gives_return : Gives (s ++ ['\r']) name ↔ Gives s name := by
  obtain ⟨init, last, hs, hreturn⟩ := split_append_of_not_mem (by decide : '\n' ∉ ['\r']) s
  simp only [Gives, hs, hreturn, List.mem_append, or_and_right, exists_or, List.mem_singleton,
    exists_eq_left, lineSymbols_append_return]

/-! ## Bytes of lines -/

theorem dropMark_append (hc : c ≠ '\uFEFF') : dropMark (a ++ c :: b) = dropMark a ++ c :: b := by
  cases a with
  | nil => simp [dropMark, hc]
  | cons d a =>
      simp only [List.cons_append, dropMark]
      split <;> rfl

/-- The bytes of a byte order mark. -/
def byteOrderMark : List UInt8 := [0xEF, 0xBB, 0xBF]

theorem dropMark_decodeLossy {bytes : List UInt8} (hmark : ¬byteOrderMark <+: bytes) :
    dropMark (Utf8.decodeLossy bytes) = Utf8.decodeLossy bytes := by
  cases bytes with
  | nil => rw [Utf8.decodeLossy_nil]; rfl
  | cons lead rest =>
      have hfirst : (Utf8.decodeFirst lead rest).1 ≠ '\uFEFF' := fun hread =>
        hmark (Utf8.mark_of_decodeFirst hread)
      rw [Utf8.decodeLossy_cons, dropMark, if_neg hfirst]

/-- The symbols of a file with the given bytes. -/
def scanBytes (bytes : List UInt8) : SymbolSet := scanText (Utf8.decodeLossy bytes)

theorem mem_scanBytes {bytes : List UInt8} :
    name ∈ (scanBytes bytes).toList ↔ Gives (dropMark (Utf8.decodeLossy bytes)) name :=
  mem_scanText_iff

theorem decodeLossy_newline (a b : List UInt8) :
    Utf8.decodeLossy (a ++ 0x0A :: b) = Utf8.decodeLossy a ++ '\n' :: Utf8.decodeLossy b :=
  Utf8.decodeLossy_append a b (by decide)

theorem decodeLossy_return (a b : List UInt8) :
    Utf8.decodeLossy (a ++ 0x0D :: b) = Utf8.decodeLossy a ++ '\r' :: Utf8.decodeLossy b :=
  Utf8.decodeLossy_append a b (by decide)

theorem mem_scanBytes_append_newline {a b : List UInt8} :
    name ∈ (scanBytes (a ++ 0x0A :: b)).toList ↔
      name ∈ (scanBytes a).toList ∨ Gives (Utf8.decodeLossy b) name := by
  rw [mem_scanBytes, decodeLossy_newline, dropMark_append (by decide), gives_newline, mem_scanBytes]

theorem scanBytes_nil : scanBytes [] = .empty := by
  refine SymbolSet.ext_mem fun name => ?_
  rw [mem_scanBytes, Utf8.decodeLossy_nil]
  simpa [dropMark, SymbolSet.empty] using not_gives_nil

theorem mem_scanBytes_newline {b : List UInt8} :
    name ∈ (scanBytes (0x0A :: b)).toList ↔ Gives (Utf8.decodeLossy b) name := by
  have hcut : name ∈ (scanBytes ([] ++ 0x0A :: b)).toList ↔
      name ∈ (scanBytes []).toList ∨ Gives (Utf8.decodeLossy b) name := mem_scanBytes_append_newline
  simpa [scanBytes_nil, SymbolSet.empty] using hcut

/-- A line feed cuts a file in two: the file before it and one that begins with it. -/
theorem scanBytes_append_newline (a b : List UInt8) :
    scanBytes (a ++ 0x0A :: b) = (scanBytes a).union (scanBytes (0x0A :: b)) := by
  refine SymbolSet.ext_mem fun name => ?_
  rw [SymbolSet.mem_union, mem_scanBytes_append_newline, mem_scanBytes_newline]

/-- A file without a byte order mark gives the same behind a line feed. -/
theorem scanBytes_newline {b : List UInt8} (hmark : ¬byteOrderMark <+: b) :
    scanBytes (0x0A :: b) = scanBytes b := by
  refine SymbolSet.ext_mem fun name => ?_
  rw [mem_scanBytes_newline, mem_scanBytes, dropMark_decodeLossy hmark]

/-- A carriage return before a line feed changes nothing. -/
theorem scanBytes_return (a b : List UInt8) :
    scanBytes (a ++ 0x0D :: 0x0A :: b) = scanBytes (a ++ 0x0A :: b) := by
  refine SymbolSet.ext_mem fun name => ?_
  have hsame : name ∈ (scanBytes (a ++ [0x0D])).toList ↔ name ∈ (scanBytes a).toList := by
    rw [mem_scanBytes, decodeLossy_return, dropMark_append (by decide), Utf8.decodeLossy_nil,
      gives_return, mem_scanBytes]
  rw [List.append_cons a 0x0D, mem_scanBytes_append_newline, mem_scanBytes_append_newline, hsame]

/-- The bytes with a carriage return before every line feed. -/
def withReturns : List UInt8 → List UInt8
  | [] => []
  | byte :: rest =>
    if byte = 0x0A then 0x0D :: 0x0A :: withReturns rest else byte :: withReturns rest

theorem scanBytes_withReturns (front bytes : List UInt8) :
    scanBytes (front ++ withReturns bytes) = scanBytes (front ++ bytes) := by
  -- Bytes that are done move to the front, so that a step is about one line feed anywhere in a file.
  induction bytes generalizing front with
  | nil => rfl
  | cons byte rest ih =>
      rw [withReturns]
      split
      · next hbyte =>
        have hrest := ih (front ++ [0x0D, 0x0A])
        rw [List.append_assoc, List.append_assoc] at hrest
        rw [hbyte, ← scanBytes_return]
        exact hrest
      · rw [List.append_cons, ih, ← List.append_cons]

/-! ## Files -/

/-- The line feed. -/
def newline : ByteArray := ⟨#[0x0A]⟩

/-- The file with the first line and the others, each behind a line feed. -/
def joined (first : ByteArray) (others : List ByteArray) : ByteArray :=
  others.foldl (fun content line => content ++ newline ++ line) first

/-- The file with a carriage return before every line feed. -/
def returned (content : ByteArray) : ByteArray := ⟨⟨withReturns content.data.toList⟩⟩

theorem scanContent_eq (content : ByteArray) :
    scanContent content = scanBytes content.data.toList := rfl

theorem toList_newline_append (b : ByteArray) :
    (newline ++ b).data.toList = 0x0A :: b.data.toList := by simp [newline]

theorem scanContent_append_newline (a b : ByteArray) :
    scanContent (a ++ newline ++ b) = (scanContent a).union (scanContent (newline ++ b)) := by
  have hbytes : (a ++ newline ++ b).data.toList = a.data.toList ++ 0x0A :: b.data.toList := by
    simp [newline]
  rw [scanContent_eq, hbytes, scanBytes_append_newline, ← toList_newline_append,
    ← scanContent_eq, ← scanContent_eq]

theorem scanContent_newline {b : ByteArray} (hmark : ¬byteOrderMark <+: b.data.toList) :
    scanContent (newline ++ b) = scanContent b := by
  rw [scanContent_eq, toList_newline_append, scanBytes_newline hmark, ← scanContent_eq]

theorem mem_scanContent_joined {first : ByteArray} {others : List ByteArray} :
    name ∈ (scanContent (joined first others)).toList ↔
      name ∈ (scanContent first).toList ∨
        ∃ line ∈ others, name ∈ (scanContent (newline ++ line)).toList := by
  induction others generalizing first with
  | nil => simp [joined]
  | cons line others ih =>
      have hrest := @ih (first ++ newline ++ line)
      rw [scanContent_append_newline, SymbolSet.mem_union] at hrest
      rw [List.exists_mem_cons_iff, ← or_assoc]
      exact hrest

/-- A file gives what the file before a line feed and the one behind it give, and so each of its
lines gives by itself what it gives in the file.  A line feed at the end and carriage returns before
the line feeds give nothing. -/
theorem scanContent_lines (a b : ByteArray) (others : List ByteArray) :
    (¬byteOrderMark <+: b.data.toList →
      scanContent (a ++ newline ++ b) = (scanContent a).union (scanContent b)) ∧
    (∀ name, name ∈ (scanContent (joined a others)).toList ↔
      name ∈ (scanContent a).toList ∨
        ∃ line ∈ others, name ∈ (scanContent (newline ++ line)).toList) ∧
    scanContent (a ++ newline) = scanContent a ∧
    scanContent (returned a) = scanContent a := by
  refine ⟨fun hmark => ?_, fun name => mem_scanContent_joined, ?_, ?_⟩
  · rw [scanContent_append_newline, scanContent_newline hmark]
  · have hnothing : scanContent ByteArray.empty = .empty := scanBytes_nil
    have hend := scanContent_append_newline a .empty
    rw [scanContent_newline (by decide), hnothing, ByteArray.append_empty] at hend
    rw [hend]
    exact SymbolSet.ext_mem fun name => by simp [SymbolSet.empty]
  · exact scanBytes_withReturns [] a.data.toList

/-- A line that breaks off within a character. -/
def brokenLine : ByteArray := ⟨#[0x23, 0x69, 0x66, 0x20, 0x41, 0xE2, 0x82]⟩

/-- A line that names a symbol of its own. -/
def wholeLine : ByteArray := ⟨#[0x23, 0x69, 0x66, 0x20, 0x42]⟩

/-- A line that breaks off within a character leaves the next one as it is. -/
theorem scanContent_lines_broken :
    ¬byteOrderMark <+: wholeLine.data.toList ∧
    scanContent (brokenLine ++ newline ++ wholeLine) =
      (scanContent brokenLine).union (scanContent wholeLine) ∧
    (scanContent brokenLine).toList = ["A"] ∧ (scanContent wholeLine).toList = ["B"] := by
  have hmark : ¬byteOrderMark <+: wholeLine.data.toList := by decide
  have hbroken : (scanContent brokenLine).toList = ["A"] := by
    have htext : lossy brokenLine = "#if A\uFFFD".toList := by cbv
    rw [scanContent, htext]
    decide +kernel
  have hwhole : (scanContent wholeLine).toList = ["B"] := by
    have htext : lossy wholeLine = "#if B".toList := by cbv
    rw [scanContent, htext]
    decide +kernel
  exact ⟨hmark, (scanContent_lines brokenLine wholeLine []).1 hmark, hbroken, hwhole⟩

end ScriptAssembly.Scan
