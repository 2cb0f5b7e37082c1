import ScriptAssembly.Proofs.Diagnostic.Display

/-!
# Displaying what was read

What a line reports is displayed in a form that reads back as the same: the name before a place has
no mark behind its first character, or the place would stand there, and the message of a line
without a place has no mark at all.
-/

namespace ScriptAssembly.Diagnostic

open Text

variable {s line before rest : List Char} {headline : Headline} {index : Nat}

theorem oneLine_trim (hs : '\n' ∉ s) : OneLine (.ofList (trim s)) where
  unbroken hmem := hs (mem_of_mem_trim (by simpa using hmem))
  trimmed := trimmed_trim s

theorem MarkedAt.of_trim (hmarked : MarkedAt (trim s) index) : MarkedAt (trimStart s) index := by
  obtain ⟨back, hback⟩ := trim_begins s
  rw [← hback]
  exact hmarked.before back

/-- The name before the place of a line has no mark behind its first character. -/
theorem PlaceAt.not_markedAt_trim (hplace : PlaceAt (before ++ rest) before.length) :
    ∀ index ≥ 1, ¬MarkedAt (trim before) index := by
  intro index hindex hmarked
  obtain ⟨gap, hgap, hsplit⟩ := exists_blank_trimStart before
  have hends := ends_trimStart before
  have hmark := hmarked.of_trim
  generalize trimStart before = name at hsplit hends hmark
  subst hsplit
  have hlength := hmark.lt_length
  have hwritten : name ≠ [] := List.ne_nil_of_length_pos (Nat.zero_lt_of_lt hlength)
  have hbody : Ends isBlank (name ++ rest) := ends_append hwritten hends
  have hindent := indent_blank_append hgap hbody
  have hearlier := (hmark.before rest).behind gap
  rw [List.append_assoc, List.length_append] at hplace
  rcases hplace with ⟨-, -, hfirst⟩ | ⟨-, -, -, hnone⟩
  · have hbehind := hfirst _ (by omega) hearlier
    omega
  · exact hnone _ (by omega) hearlier

/-- The message of a line without a place has no mark. -/
theorem Headlined.not_markedAt_trim (hheadline : Headlined line headline rest)
    (hnone : ∀ index ≥ 1, ¬MarkedAt line index) : ∀ index, ¬MarkedAt (trim rest) index := by
  rintro index hmarked
  obtain ⟨gap, sender, text, -, -, hspells, rfl⟩ := hheadline
  obtain ⟨lead, -, hrest⟩ := exists_blank_trimStart rest
  have hmark := ((((hmarked.of_trim).behind lead).behind text).behind sender).behind gap
  rw [← hrest] at hmark
  have hpositive := List.length_pos_iff.mpr hspells.ne_nil
  exact hnone _ (by omega) hmark

/-- What was read from a line is read again from its display, if it is displayed whole: with a place
and the name of a file, or without either. -/
theorem ofLine?_display_of_ofLine? (line : List Char) (d : Diagnostic) (hline : '\n' ∉ line)
    (hread : ofLine? line = some d)
    (hplace : d.file = none ∨
      (∃ file, d.file = some file ∧ file.text ≠ "") ∧ d.line.isSome ∧ d.column.isSome) :
    ofLine? d.display.toList = some d := by
  have hreports := reports_ofLine? hline
  rw [hread] at hreports
  cases hreports with
  | @placed before _ _ headline text rest lineNumber columnNumber hsplit hat hmarks =>
      subst hsplit
      simp only [List.mem_append, not_or] at hline
      rcases hplace with hnowhere | ⟨⟨file, hfile, hwritten⟩, hlineNumber, hcolumnNumber⟩
      · cases hnowhere
      · obtain ⟨n, rfl⟩ := Option.isSome_iff_exists.mp hlineNumber
        obtain ⟨k, rfl⟩ := Option.isSome_iff_exists.mp hcolumnNumber
        cases hfile
        have hcode : IsCode (String.ofList headline.code).toList := by
          rw [String.toList_ofList]
          exact hmarks.isCode
        refine ofLine?_located hcode (oneLine_trim hline.2.2) hwritten (oneLine_trim hline.1) ?_
        dsimp only
        rw [String.toList_ofList]
        exact hat.not_markedAt_trim
  | @unplaced headline rest hnone hheadline =>
      have hcode : IsCode (String.ofList headline.code).toList := by
        rw [String.toList_ofList]
        exact hheadline.isCode
      refine ofLine?_unlocated hcode (oneLine_trim (hheadline.not_mem hline)) ?_
      rw [String.toList_ofList]
      exact hheadline.not_markedAt_trim hnone

/-- The name of a tool, blanks and leading zeros are gone at once, and parentheses do no harm. -/
theorem ofLine?_display_of_ofLine?_spaced :
    let placed := "\t lib (1,2)/a.cs (007,05) :  error  CS0103 :  x(1,1): error A1: y ".toList
    let unplaced := " csc : warning CS2 :  no Main(1,1): entry ".toList
    let located : Diagnostic := ⟨.error, some ⟨"lib (1,2)/a.cs"⟩, some 7, some 5, some "CS0103",
      "x(1,1): error A1: y"⟩
    let unlocated : Diagnostic := ⟨.warning, none, none, none, some "CS2", "no Main(1,1): entry"⟩
    (ofLine? placed = some located ∧ ofLine? located.display.toList = some located) ∧
      ofLine? unplaced = some unlocated ∧ ofLine? unlocated.display.toList = some unlocated := by
  intro placed unplaced located unlocated
  have hplaced : ofLine? placed = some located := by decide +kernel
  have hunplaced : ofLine? unplaced = some unlocated := by decide +kernel
  have hlocated := ofLine?_display_of_ofLine? placed located (by decide) hplaced
    (.inr ⟨⟨_, rfl, by decide⟩, rfl, rfl⟩)
  have hunlocated := ofLine?_display_of_ofLine? unplaced unlocated (by decide) hunplaced (.inl rfl)
  exact ⟨⟨hplaced, hlocated⟩, hunplaced, hunlocated⟩

end ScriptAssembly.Diagnostic
