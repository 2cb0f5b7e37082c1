import ScriptAssembly.Proofs.Scan.Names

/-!
# Delimited texts of symbols

A delimited text gives a set of symbols back exactly if each of them can stand between delimiters:
it is not empty, holds no delimiter and has no blanks at its ends.  Whatever is read from a
delimited text is of this kind, and so is every name that a definition or an expression gives.
-/

namespace ScriptAssembly

/-- A name that can stand between delimiters. -/
structure Delimitable (name : String) : Prop where
  /-- It has a character. -/
  ne_empty : name ≠ ""
  /-- There is no delimiter in it. -/
  undelimited : SymbolSet.delimiter ∉ name.toList
  /-- It is its own trim. -/
  trimmed : Text.trimmed name = name

theorem Delimitable.toList_ne_nil {name : String} (hname : Delimitable name) :
    name.toList ≠ [] := by
  simpa using hname.ne_empty

/-- A word can stand between delimiters. -/
theorem delimitable_of_isWord {word : List Char} (hwritten : word ≠ [])
    (hword : ∀ c ∈ word, Text.isWord c) : Delimitable (.ofList word) where
  ne_empty := Scan.ofList_ne_empty hwritten
  undelimited := by
    rw [String.toList_ofList]
    exact Text.not_mem_of_run hword (by decide)
  trimmed := by
    rw [Text.trimmed, String.toList_ofList,
      Text.trim_of_not_blank fun c hc => Text.isBlank_eq_false_of_isWord (hword c hc)]

namespace SymbolSet

variable {symbols : SymbolSet} {name value : String}

@[simp]
theorem mem_ofList {names : List String} : name ∈ (ofList names).toList ↔ name ∈ names := by
  simp [ofList, empty]

theorem mem_parse :
    name ∈ (parse value).toList ↔
      ∃ piece ∈ Text.split delimiter value.toList, Text.trim piece ≠ [] ∧
        .ofList (Text.trim piece) = name := by
  simp only [parse, mem_ofList, List.mem_map, List.mem_filter, decide_eq_true_eq]
  constructor
  · rintro ⟨_, ⟨⟨piece, hpiece, rfl⟩, hwritten⟩, hname⟩
    exact ⟨piece, hpiece, hwritten, hname⟩
  · rintro ⟨piece, hpiece, hwritten, hname⟩
    exact ⟨_, ⟨⟨piece, hpiece, rfl⟩, hwritten⟩, hname⟩

/-- What is read from a delimited text can stand in one. -/
theorem delimitable_of_mem_parse (hname : name ∈ (parse value).toList) : Delimitable name := by
  obtain ⟨piece, hpiece, hwritten, rfl⟩ := mem_parse.mp hname
  refine ⟨Scan.ofList_ne_empty hwritten, fun hmem => ?_, Text.trimmed_trim piece⟩
  rw [String.toList_ofList] at hmem
  exact Text.not_mem_of_mem_split hpiece (Text.mem_of_mem_trim hmem)

/-- A delimited text gives names back that can stand in one. -/
theorem parse_toDelimited (hnames : ∀ name ∈ symbols.toList, Delimitable name) :
    parse symbols.toDelimited = symbols := by
  let pieces := symbols.toList.map String.toList
  have hpieces : ∀ piece ∈ pieces, piece ≠ [] ∧ delimiter ∉ piece ∧ Text.trim piece = piece := by
    intro piece hpiece
    obtain ⟨name, hname, rfl⟩ := List.mem_map.mp hpiece
    have hdelimitable := hnames name hname
    exact ⟨hdelimitable.toList_ne_nil, hdelimitable.undelimited,
      Text.trim_of_trimmed hdelimitable.trimmed⟩
  have htrim : pieces.map Text.trim = pieces :=
    (List.map_congr_left fun piece hpiece => (hpieces piece hpiece).2.2).trans (List.map_id pieces)
  have hfilter : pieces.filter (· ≠ []) = pieces :=
    List.filter_eq_self.mpr fun piece hpiece => decide_eq_true (hpieces piece hpiece).1
  have hlisting : pieces.map String.ofList = symbols.toList := by simp [pieces]
  by_cases hnone : symbols.toList = []
  · have hempty : symbols = empty := ext_toList hnone
    rw [hempty]
    decide
  · have hsome : pieces ≠ [] := by simpa [pieces] using hnone
    rw [parse, toDelimited, String.toList_ofList,
      Text.split_join hsome fun piece hpiece => (hpieces piece hpiece).2.1, htrim, hfilter,
      hlisting, ofList_toList]

theorem parse_append_delimiter (left right : String) :
    parse (left ++ .singleton delimiter ++ right) = (parse left).union (parse right) := by
  refine ext_mem fun name => ?_
  have hchars : (left ++ .singleton delimiter ++ right).toList =
      left.toList ++ delimiter :: right.toList := by simp
  simp only [mem_union, mem_parse, hchars, Text.split_append_cons, List.mem_append, or_and_right,
    exists_or]

end SymbolSet

namespace Scan

/-- A text that no attribute claims a line of names symbols that can stand between delimiters. -/
theorem delimitable_of_mem_scanText {text : List Char}
    (hunclaimed : ∀ line ∈ Text.lines (dropMark text), ¬LineRule.attribute.Claims line)
    {name : String} (hname : name ∈ (scanText text).toList) : Delimitable name := by
  obtain ⟨line, hline, hmem⟩ := mem_scanText.mp hname
  obtain ⟨found, hfound, hmem⟩ := mem_lineSymbols.mp hmem
  obtain ⟨rule, hclaim, rfl⟩ := Option.map_eq_some_iff.mp hfound
  have hrule : rule ≠ .attribute := by
    rintro rfl
    exact hunclaimed line hline (claimant?_eq_some_iff.mp hclaim)
  obtain ⟨chars, rfl, hwritten, hword⟩ := exists_ofList_of_finds (finds_names line rule) hmem
  exact delimitable_of_isWord hwritten (hword hrule)

end Scan

/-- A set of symbols is read back from its delimited text exactly if each of its members can stand
between delimiters.  The members of every set that is read from a delimited text can, and so can the
symbols of a text that has no attributes.  Delimited texts that are joined give the union of what
they give. -/
theorem SymbolSet.parse_toDelimited_iff :
    (∀ symbols : SymbolSet, parse symbols.toDelimited = symbols ↔
      ∀ name ∈ symbols.toList, Delimitable name) ∧
    (∀ value, ∀ name ∈ (parse value).toList, Delimitable name) ∧
    (∀ text, (∀ line ∈ Text.lines (Scan.dropMark text), ¬Scan.LineRule.attribute.Claims line) →
      ∀ name ∈ (Scan.scanText text).toList, Delimitable name) ∧
    ∀ left right, parse (left ++ ";" ++ right) = (parse left).union (parse right) := by
  refine ⟨fun symbols => ⟨fun hparse name hname => ?_, parse_toDelimited⟩,
    fun value name => delimitable_of_mem_parse,
    fun text hunclaimed name => Scan.delimitable_of_mem_scanText hunclaimed,
    parse_append_delimiter⟩
  rw [← hparse] at hname
  exact delimitable_of_mem_parse hname

/-- The symbols of a text with two directives are read back from their delimited text. -/
theorem SymbolSet.parse_toDelimited_iff_directives :
    let text := "#define B\n #elif C && A".toList
    (∀ line ∈ Text.lines (Scan.dropMark text), ¬Scan.LineRule.attribute.Claims line) ∧
      (Scan.scanText text).toList = ["A", "B", "C"] ∧
      parse (Scan.scanText text).toDelimited = Scan.scanText text := by
  intro text
  have hlines : ∀ line ∈ Text.lines (Scan.dropMark text),
      Scan.claimant? line ≠ some .attribute := by decide +kernel
  have hunclaimed : ∀ line ∈ Text.lines (Scan.dropMark text),
      ¬Scan.LineRule.attribute.Claims line :=
    fun line hline hclaims => hlines line hline (Scan.claimant?_eq_some_iff.mpr hclaims)
  refine ⟨hunclaimed, by decide +kernel, ?_⟩
  exact (parse_toDelimited_iff.1 _).mpr (parse_toDelimited_iff.2.2.1 text hunclaimed)

end ScriptAssembly
