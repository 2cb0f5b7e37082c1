import ScriptAssembly.Proofs.Diagnostic.Place

/-!
# What a line of compiler output reports

A line reports what is written on it, told without a reader.  With a place it reports the file
before the place, both numbers that fit 32 bits, the headline and the message.  Without one it may
begin with the name of a tool before its headline.  Any other line reports nothing.  Reading a line
gives what it reports.
-/

namespace ScriptAssembly.Diagnostic

open Text

variable {s line text rest digits : List Char} {headline : Headline} {value : Option UInt32}
  {answer : Option Diagnostic}

/-- What digits denote: the number of 32 bits that they write in ASCII, if there is one. -/
inductive Denotes (digits : List Char) : Option UInt32 → Prop
  | number {n : UInt32} (hascii : ∀ c ∈ digits, c.isDigit)
      (hvalue : Nat.ofDigitChars 10 digits 0 = n.toNat) : Denotes digits (some n)
  | large (hascii : ∀ c ∈ digits, c.isDigit) (hlarge : 2 ^ 32 ≤ Nat.ofDigitChars 10 digits 0) :
      Denotes digits none
  | foreign {c} (hmem : c ∈ digits) (hforeign : ¬c.isDigit) : Denotes digits none

/-- What may stand before a headline: nothing, or the name of a tool and a colon. -/
inductive Sender : List Char → Prop
  | nobody : Sender []
  | tool {name gap lead} (hwritten : name ≠ []) (hname : ∀ c ∈ name, c ≠ ':' ∧ isBlank c = false)
      (hgap : Blank gap) (hlead : Blank lead) : Sender (name ++ (gap ++ ':' :: lead))

/-- The line begins with the headline, leading blanks and a sender apart, and `rest` follows it. -/
def Headlined (line : List Char) (headline : Headline) (rest : List Char) : Prop :=
  ∃ gap sender text, Blank gap ∧ Sender sender ∧ headline.Spells text ∧
    line = gap ++ (sender ++ (text ++ rest))

/-- What a line reports. -/
inductive Reports (line : List Char) : Option Diagnostic → Prop
  | placed {before lineDigits columnDigits headline text rest lineNumber columnNumber}
      (hline : line = before ++ (text ++ rest)) (hplace : PlaceAt line before.length)
      (hmarks : Marks lineDigits columnDigits headline text)
      (hlineNumber : Denotes lineDigits lineNumber)
      (hcolumnNumber : Denotes columnDigits columnNumber) :
      Reports line (some {
        severity := headline.severity
        file := some ⟨.ofList (trim before)⟩
        line := lineNumber
        column := columnNumber
        code := some (.ofList headline.code)
        message := .ofList (trim rest) })
  | unplaced {headline : Headline} {rest : List Char}
      (hnone : ∀ index ≥ 1, ¬MarkedAt line index) (hheadline : Headlined line headline rest) :
      Reports line (some {
        severity := headline.severity
        code := some (.ofList headline.code)
        message := .ofList (trim rest) })
  | nothing (hnone : ∀ index ≥ 1, ¬MarkedAt line index)
      (hsilent : ∀ headline rest, ¬Headlined line headline rest) : Reports line none

/-! ## Numbers -/

theorem denotes_number? (digits : List Char) : Denotes digits (number? digits) := by
  have hvalue : digits.foldl (fun n c => n * 10 + (c.toNat - '0'.toNat)) 0 =
      Nat.ofDigitChars 10 digits 0 := by
    simp only [Nat.ofDigitChars_eq_foldl, Nat.mul_comm 10]
  simp only [number?, hvalue]
  split
  · next hall =>
    rw [List.all_eq_true] at hall
    split
    · next hfits => exact .number hall (UInt32.toNat_ofNat_of_lt hfits).symm
    · next hlarge => exact .large hall (Nat.not_lt.mp hlarge)
  · next hforeign =>
    simp only [List.all_eq_true, not_forall] at hforeign
    obtain ⟨c, hmem, hc⟩ := hforeign
    exact .foreign hmem hc

theorem Denotes.unique {other : Option UInt32} (hdenotes : Denotes digits value)
    (hother : Denotes digits other) : value = other := by
  cases hdenotes with
  | @number n hascii hvalue =>
      cases hother with
      | number _ hsame => rw [UInt32.toNat_inj.mp (hvalue.symm.trans hsame)]
      | large _ hlarge =>
          have hfits := n.toNat_lt
          omega
      | foreign hmem hforeign => exact absurd (hascii _ hmem) hforeign
  | large hascii hlarge =>
      cases hother with
      | @number n _ hvalue =>
          have hfits := n.toNat_lt
          omega
      | large | foreign => rfl
  | foreign hmem hforeign =>
      cases hother with
      | number hascii => exact absurd (hascii _ hmem) hforeign
      | large | foreign => rfl

/-! ## Lines without a place -/

theorem behindTool?_eq_some_iff :
    behindTool? s = some rest ↔ ∃ name gap lead, name ≠ [] ∧
      (∀ c ∈ name, c ≠ ':' ∧ isBlank c = false) ∧ Blank gap ∧ Blank lead ∧ Ends isBlank rest ∧
      s = name ++ (gap ++ ':' :: (lead ++ rest)) := by
  let inName := fun c => decide (c ≠ ':' ∧ isBlank c = false)
  have hunfold : behindTool? s =
      if s.head?.any inName then (colonAt? (s.dropWhile inName)).map trimStart else none := rfl
  rw [hunfold]
  constructor
  · intro hread
    split at hread
    · next hhead =>
      obtain ⟨behind, hcolon, rfl⟩ := Option.map_eq_some_iff.mp hread
      obtain ⟨gap, hgap, hdrop⟩ := colonAt?_eq_some_iff.mp hcolon
      obtain ⟨lead, hlead, hbehind⟩ := exists_blank_trimStart behind
      have hwritten : s.takeWhile inName ≠ [] := by
        cases s with
        | nil => cases hhead
        | cons c s =>
            have hc : inName c := hhead
            simp [hc]
      refine ⟨s.takeWhile inName, gap, lead, hwritten, fun c hc => ?_, hgap, hlead,
        ends_trimStart behind, ?_⟩
      · exact of_decide_eq_true (mem_takeWhile hc)
      · rw [← hbehind, ← hdrop, List.takeWhile_append_dropWhile]
    · cases hread
  · rintro ⟨name, gap, lead, hwritten, hname, hgap, hlead, hends, rfl⟩
    have hhead : (name ++ (gap ++ ':' :: (lead ++ rest))).head?.any inName := by
      cases name with
      | nil => exact absurd rfl hwritten
      | cons c name => exact decide_eq_true (hname c List.mem_cons_self)
    have hstop : Ends inName (gap ++ ':' :: (lead ++ rest)) := by
      cases gap with
      | nil => exact ends_cons.mpr (by simp [inName])
      | cons c gap => exact ends_cons.mpr (by simp [inName, hgap c List.mem_cons_self])
    have hcolon : colonAt? (gap ++ ':' :: (lead ++ rest)) = some (lead ++ rest) :=
      colonAt?_eq_some_iff.mpr ⟨gap, hgap, rfl⟩
    rw [if_pos hhead, dropWhile_run (fun c hc => decide_eq_true (hname c hc)) hstop, hcolon,
      Option.map_some, trimStart_blank_append hlead, trimStart_of_ends hends]

theorem Sender.ends_isBlank {sender : List Char} (hsender : Sender sender)
    (hspells : headline.Spells text) : Ends isBlank (sender ++ (text ++ rest)) := by
  cases hsender with
  | nobody => exact hspells.ends_isBlank
  | tool hwritten hname =>
      rw [List.append_assoc]
      exact ends_append hwritten fun c hc => (hname c (List.mem_of_mem_head? hc)).2

/-- A headline is read behind the tool that sends it, or by itself if no tool does. -/
theorem headlineAt?_of_sender {sender : List Char} (hsender : Sender sender)
    (hspells : headline.Spells text) (rest : List Char) :
    (behindTool? (sender ++ (text ++ rest))).bind headlineAt? = some (headline, rest) ∨
    (behindTool? (sender ++ (text ++ rest))).bind headlineAt? = none ∧
      headlineAt? (sender ++ (text ++ rest)) = some (headline, rest) := by
  have hheadline : headlineAt? (text ++ rest) = some (headline, rest) :=
    headlineAt?_eq_some_iff.mpr ⟨text, hspells, rfl⟩
  cases hsender with
  | nobody =>
      rw [List.nil_append, behindTool?_of_spells hspells]
      exact .inr ⟨rfl, hheadline⟩
  | @tool name gap lead hwritten hname hgap hlead =>
      have htool : behindTool? (name ++ (gap ++ ':' :: lead) ++ (text ++ rest)) =
          some (text ++ rest) := by
        refine behindTool?_eq_some_iff.mpr ⟨name, gap, lead, hwritten, hname, hgap, hlead,
          hspells.ends_isBlank, ?_⟩
        simp
      rw [htool]
      exact .inl hheadline

theorem unlocated?_of_headlined (hrest : '\n' ∉ rest) (hheadline : Headlined line headline rest) :
    unlocated? line = some {
      severity := headline.severity
      code := some (.ofList headline.code)
      message := .ofList (trim rest) } := by
  obtain ⟨gap, sender, text, hgap, hsender, hspells, rfl⟩ := hheadline
  have hbody : trimStart (gap ++ (sender ++ (text ++ rest))) = sender ++ (text ++ rest) := by
    rw [trimStart_blank_append hgap, trimStart_of_ends (hsender.ends_isBlank hspells)]
  rw [unlocated?, hbody]
  dsimp only
  rcases headlineAt?_of_sender hsender hspells rest with hread | ⟨hnone, hread⟩
  · simp [hread, messageOf?_of_not_mem hrest]
  · simp [hnone, hread, messageOf?_of_not_mem hrest]

theorem Headlined.not_mem (hheadline : Headlined line headline rest) (hline : '\n' ∉ line) :
    '\n' ∉ rest := by
  obtain ⟨gap, sender, text, -, -, -, rfl⟩ := hheadline
  simp only [List.mem_append, not_or] at hline
  exact hline.2.2.2

theorem Headlined.isCode (hheadline : Headlined line headline rest) : IsCode headline.code := by
  obtain ⟨gap, sender, text, -, -, hspells, -⟩ := hheadline
  exact hspells.isCode

theorem unlocated?_eq_none (hsilent : ∀ headline rest, ¬Headlined line headline rest) :
    unlocated? line = none := by
  obtain ⟨blanks, hblanks, hline⟩ := exists_blank_trimStart line
  have hbare : headlineAt? (trimStart line) = none := by
    refine Option.eq_none_iff_forall_not_mem.mpr fun ⟨headline, rest⟩ hread => ?_
    obtain ⟨text, hspells, hbody⟩ := headlineAt?_eq_some_iff.mp hread
    exact hsilent headline rest ⟨blanks, [], text, hblanks, .nobody, hspells, hbody ▸ hline⟩
  have htool : (behindTool? (trimStart line)).bind headlineAt? = none := by
    refine Option.eq_none_iff_forall_not_mem.mpr fun ⟨headline, rest⟩ hread => ?_
    obtain ⟨behind, htool, hread⟩ := Option.bind_eq_some_iff.mp hread
    obtain ⟨text, hspells, rfl⟩ := headlineAt?_eq_some_iff.mp hread
    obtain ⟨name, gap, lead, hwritten, hname, hgap, hlead, -, hbody⟩ :=
      behindTool?_eq_some_iff.mp htool
    refine hsilent headline rest ⟨blanks, _, text, hblanks, .tool hwritten hname hgap hlead,
      hspells, hline.trans ?_⟩
    rw [hbody]
    simp
  rw [unlocated?]
  dsimp only
  rw [htool, hbare]
  rfl

/-! ## Lines -/

/-- Every line reports something, or it reports nothing. -/
theorem exists_reports (line : List Char) : ∃ answer, Reports line answer := by
  by_cases hmarked : ∃ index ≥ 1, MarkedAt line index
  · obtain ⟨index, hplace⟩ := exists_placeAt_iff.mpr hmarked
    obtain ⟨lineDigits, columnDigits, headline, text, hmarks, rest, hrest⟩ := hplace.markedAt
    have hlength : (line.take index).length = index :=
      List.length_take_of_le (Nat.le_of_lt hplace.markedAt.lt_length)
    have hsplit : line = line.take index ++ (text ++ rest) := by
      rw [hrest, List.take_append_drop]
    exact ⟨_, .placed hsplit (hlength.symm ▸ hplace) hmarks (denotes_number? lineDigits)
      (denotes_number? columnDigits)⟩
  · have hnone : ∀ index ≥ 1, ¬MarkedAt line index := fun index hpositive hmark =>
      hmarked ⟨index, hpositive, hmark⟩
    by_cases hheadline : ∃ headline rest, Headlined line headline rest
    · obtain ⟨headline, rest, hheadline⟩ := hheadline
      exact ⟨_, .unplaced hnone hheadline⟩
    · exact ⟨none, .nothing hnone fun headline rest hread => hheadline ⟨headline, rest, hread⟩⟩

theorem ofLine?_of_reports (hline : '\n' ∉ line) (hreports : Reports line answer) :
    ofLine? line = answer := by
  cases hreports with
  | @placed before lineDigits columnDigits headline text rest _ _ hsplit hplace hmarks hlineNumber
      hcolumnNumber =>
      subst hsplit
      simp only [List.mem_append, not_or] at hline
      rw [ofLine?, located?_of_placeAt hline.1 hline.2.2 hplace hmarks, atPlace?_eq hline.2.2,
        (denotes_number? lineDigits).unique hlineNumber,
        (denotes_number? columnDigits).unique hcolumnNumber]
  | unplaced hnone hheadline =>
      rw [ofLine?, located?_eq_none hnone]
      exact unlocated?_of_headlined (hheadline.not_mem hline) hheadline
  | nothing hnone hsilent =>
      rw [ofLine?, located?_eq_none hnone]
      exact unlocated?_eq_none hsilent

theorem reports_ofLine? (hline : '\n' ∉ line) : Reports line (ofLine? line) := by
  obtain ⟨answer, hreports⟩ := exists_reports line
  rwa [ofLine?_of_reports hline hreports]

/-- Reading a line gives exactly what the line reports. -/
theorem ofLine?_eq_iff_reports (line : List Char) (hline : '\n' ∉ line)
    (answer : Option Diagnostic) : ofLine? line = answer ↔ Reports line answer := by
  constructor
  · rintro rfl
    exact reports_ofLine? hline
  · exact ofLine?_of_reports hline

/-- The last place counts where another one stands right behind the leading blanks, and the numbers
of this one are foreign and large. -/
theorem ofLine?_eq_iff_reports_crowded :
    let crowded := "\t (1,2) : error CS1 : b (٣,4294967296):warning W2: c ".toList
    '\n' ∉ crowded ∧ Reports crowded (some ⟨.warning, some ⟨"(1,2) : error CS1 : b"⟩, none, none,
      some "W2", "c"⟩) := by
  intro crowded
  have hline : '\n' ∉ crowded := by decide
  have hread : ofLine? crowded = some ⟨.warning, some ⟨"(1,2) : error CS1 : b"⟩, none, none,
      some "W2", "c"⟩ := by decide +kernel
  exact ⟨hline, (ofLine?_eq_iff_reports crowded hline _).mp hread⟩

end ScriptAssembly.Diagnostic
