import ScriptAssembly.Proofs.Diagnostic.Grammar

/-!
# Reading displayed diagnostics

A diagnostic that is displayed is read back from its line.  The first mark behind a file name is the
one that was displayed, since a mark does not reach over a parenthesis and the file name has no mark
of its own.  A diagnostic without a place has no mark in its line, so it is read as having none.
-/

namespace ScriptAssembly.Diagnostic

open Text

/-- The text is one line without blanks at its ends. -/
structure OneLine (text : String) : Prop where
  /-- There is no line feed in it. -/
  unbroken : '\n' ∉ text.toList
  /-- It is its own trim. -/
  trimmed : Text.trimmed text = text

/-- The diagnostic points into a file whose name has no mark behind its first character. -/
def Placed (d : Diagnostic) : Prop :=
  ∃ file line column, d.file = some file ∧ d.line = some line ∧ d.column = some column ∧
    file.text ≠ "" ∧ OneLine file.text ∧ ∀ index ≥ 1, ¬MarkedAt file.text.toList index

/-- The diagnostic points nowhere, and its message has no mark. -/
def Unplaced (d : Diagnostic) : Prop :=
  d.file = none ∧ d.line = none ∧ d.column = none ∧ ∀ index, ¬MarkedAt d.message.toList index

/-- A diagnostic of the kind that compilers report. -/
structure Reported (d : Diagnostic) : Prop where
  /-- It has a code. -/
  coded : ∃ code, d.code = some code ∧ IsCode code.toList
  /-- Its message is one line. -/
  message : OneLine d.message
  /-- It has a place, or it has none. -/
  place : d.Placed ∨ d.Unplaced

theorem OneLine.trim_eq {text : String} (hline : OneLine text) : trim text.toList = text.toList :=
  trim_of_trimmed hline.trimmed

/-- A blank before a text that is one line is trimmed. -/
theorem OneLine.trim_space {text : String} (hline : OneLine text) :
    trim (' ' :: text.toList) = text.toList :=
  (trim_blank_append blank_space).trans hline.trim_eq

theorem OneLine.not_mem_space {text : String} (hline : OneLine text) :
    '\n' ∉ ' ' :: text.toList := by
  simp [hline.unbroken]

theorem isNumber_toDigits (n : Nat) : IsNumber (Nat.toDigits 10 n) where
  ne_nil := Nat.toDigits_ne_nil
  digits c hc := isDigit_of_char_isDigit (Nat.isDigit_of_mem_toDigits (by decide) (by decide) hc)

theorem denotes_toDigits (n : UInt32) : Denotes (Nat.toDigits 10 n.toNat) (some n) :=
  .number (fun _ hc => Nat.isDigit_of_mem_toDigits (by decide) (by decide) hc)
    Nat.ofDigitChars_ten_toDigits

section Displayed

variable {severity : Severity}

section Spelling

variable {code : List Char}

/-- A displayed headline is a spelling of it. -/
theorem spells_displayed (severity : Severity) (hcode : IsCode code) :
    Headline.Spells ⟨severity, code⟩ (severity.text.toList ++ ([' '] ++ (code ++ ([] ++ [':'])))) :=
  .intro (by simp) blank_space hcode blank_nil

/-- A displayed place and headline are a mark. -/
theorem marks_displayed (severity : Severity) (hcode : IsCode code) (line column : Nat) :
    Marks (Nat.toDigits 10 line) (Nat.toDigits 10 column) ⟨severity, code⟩
      ('(' :: (Nat.toDigits 10 line ++ ',' :: (Nat.toDigits 10 column ++ ')' :: ([] ++ ':' ::
        ([' '] ++ (severity.text.toList ++ ([' '] ++ (code ++ ([] ++ [':']))))))))) :=
  .intro (isNumber_toDigits line) (isNumber_toDigits column) blank_nil blank_space
    (spells_displayed severity hcode)

end Spelling

variable {file : Path} {line column : UInt32} {code message : String}

/-- A located diagnostic is read back: no mark of its line begins in the name of its file. -/
theorem ofLine?_located (hcode : IsCode code.toList) (hmessage : OneLine message)
    (hwritten : file.text ≠ "") (hfile : OneLine file.text)
    (hmarks : ∀ index ≥ 1, ¬MarkedAt file.text.toList index) :
    ofLine? (display ⟨severity, some file, some line, some column, some code, message⟩).toList =
      some ⟨severity, some file, some line, some column, some code, message⟩ := by
  have hmark := marks_displayed severity hcode line.toNat column.toNat
  have hname : file.text.toList ≠ [] := by simpa using hwritten
  have hplace := placeAt_of_not_markedAt hname (ends_of_trim hfile.trim_eq) hmark hmarks
    (' ' :: message.toList)
  have hread := located?_of_placeAt hfile.unbroken hmessage.not_mem_space hplace hmark
  have hdisplay : (display ⟨severity, some file, some line, some column, some code,
      message⟩).toList = file.text.toList ++ ('(' :: (Nat.toDigits 10 line.toNat ++ ',' ::
        (Nat.toDigits 10 column.toNat ++ ')' :: ([] ++ ':' :: ([' '] ++ (severity.text.toList ++
          ([' '] ++ (code.toList ++ ([] ++ [':'])))))))) ++ ' ' :: message.toList) := by
    simp [display, place, position, label]
    rfl
  rw [hdisplay, ofLine?, hread, atPlace?_eq hmessage.not_mem_space,
    (denotes_number? _).unique (denotes_toDigits line),
    (denotes_number? _).unique (denotes_toDigits column)]
  simp [hfile.trim_eq, hmessage.trim_space]

/-- A diagnostic without a place is read back: its line has no mark. -/
theorem ofLine?_unlocated (hcode : IsCode code.toList) (hmessage : OneLine message)
    (hmarks : ∀ index, ¬MarkedAt message.toList index) :
    ofLine? (display ⟨severity, none, none, none, some code, message⟩).toList =
      some ⟨severity, none, none, none, some code, message⟩ := by
  let spelled := severity.text.toList ++ ([' '] ++ (code.toList ++ ([] ++ [':'])))
  have hspelled : Headline.Spells ⟨severity, code.toList⟩ spelled := spells_displayed severity hcode
  have hdisplay : (display ⟨severity, none, none, none, some code, message⟩).toList =
      spelled ++ ' ' :: message.toList := by
    simp [display, place, label, spelled]
  have hfree : '(' ∉ spelled ++ [' '] := by simpa using hspelled.not_mem
  have hnone : ∀ index ≥ 1, ¬MarkedAt (spelled ++ ' ' :: message.toList) index := by
    intro index _ hmarked
    rw [List.append_cons] at hmarked
    exact hmarks _ ((markedAt_append hfree).mp hmarked).2
  have hheadline : Headlined (spelled ++ ' ' :: message.toList) ⟨severity, code.toList⟩
      (' ' :: message.toList) :=
    ⟨[], [], spelled, blank_nil, .nobody, hspelled, rfl⟩
  rw [hdisplay, ofLine?, located?_eq_none hnone]
  refine (unlocated?_of_headlined hmessage.not_mem_space hheadline).trans ?_
  simp [hmessage.trim_space]

end Displayed

/-- A diagnostic that is displayed is read back from its line. -/
theorem ofLine?_display (d : Diagnostic) (hd : d.Reported) : ofLine? d.display.toList = some d := by
  obtain ⟨⟨code, hsome, hcode⟩, hmessage, hplace⟩ := hd
  obtain ⟨severity, file, line, column, written, message⟩ := d
  rcases hplace with ⟨file, line, column, rfl, rfl, rfl, hwritten, hfile, hmarks⟩ |
    ⟨rfl, rfl, rfl, hmarks⟩
  · cases hsome
    exact ofLine?_located hcode hmessage hwritten hfile hmarks
  · cases hsome
    exact ofLine?_unlocated hcode hmessage hmarks

/-- Parentheses in the name of a file and in a message do no harm. -/
theorem ofLine?_display_parenthesized :
    let located : Diagnostic := ⟨.warning, some ⟨"Old (2,0): x/a.cs"⟩, some 12, some 7,
      some "CS0168", "like (1,1): error CS1: y"⟩
    let unlocated : Diagnostic := ⟨.error, none, none, none, some "CS5001", "no Main(1,1): entry"⟩
    (located.Reported ∧ ofLine? located.display.toList = some located) ∧
      unlocated.Reported ∧ ofLine? unlocated.display.toList = some unlocated := by
  intro located unlocated
  have hname : ∀ index < "Old (2,0): x/a.cs".toList.length, index ≥ 1 →
      ¬MarkedAt "Old (2,0): x/a.cs".toList index := by decide
  have hmessage : ∀ index < "no Main(1,1): entry".toList.length,
      ¬MarkedAt "no Main(1,1): entry".toList index := by decide
  have hlocated : located.Reported := by
    have hcode : IsCode ("CS".toList ++ "0168".toList) :=
      .intro (by decide) (List.all_eq_true.mp (by decide))
        ⟨by decide, List.all_eq_true.mp (by decide)⟩
    refine ⟨⟨_, rfl, hcode⟩, ⟨by decide, by decide⟩, .inl ⟨_, _, _, rfl, rfl, rfl, by decide,
      ⟨by decide, by decide⟩, fun index hindex hmarked => ?_⟩⟩
    exact hname index hmarked.lt_length hindex hmarked
  have hunlocated : unlocated.Reported := by
    have hcode : IsCode ("CS".toList ++ "5001".toList) :=
      .intro (by decide) (List.all_eq_true.mp (by decide))
        ⟨by decide, List.all_eq_true.mp (by decide)⟩
    refine ⟨⟨_, rfl, hcode⟩, ⟨by decide, by decide⟩, .inr ⟨rfl, rfl, rfl, fun index hmarked => ?_⟩⟩
    exact hmessage index hmarked.lt_length hmarked
  exact ⟨⟨hlocated, ofLine?_display located hlocated⟩,
    hunlocated, ofLine?_display unlocated hunlocated⟩

end ScriptAssembly.Diagnostic
