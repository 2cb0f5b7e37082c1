import ScriptAssembly.Proofs.Diagnostic.Grammar

/-!
# Diagnostics of a compiler's output

A spelling of a headline or a mark ends with a colon, so blanks behind a line are no part of one,
and the line reports what it reports without them.  So it does not matter how a line ends, and an
output has the diagnostics of its lines, each line by itself.
-/

namespace ScriptAssembly.Diagnostic

open Text

variable {s a b line gap text rest : List Char} {lineDigits columnDigits : List Char}
  {headline : Headline} {answer : Option Diagnostic} {index : Nat}

/-! ## Blanks behind a line -/

theorem Headline.Spells.ends_colon (hspells : headline.Spells text) :
    ∃ front, text = front ++ [':'] := by
  obtain ⟨-, -, -, -⟩ := hspells
  rename_i severity code gap last
  exact ⟨severity.text.toList ++ (gap ++ (code ++ last)), by simp⟩

theorem Marks.ends_colon (hmarks : Marks lineDigits columnDigits headline text) :
    ∃ front, text = front ++ [':'] := by
  obtain ⟨-, -, -, -, hspells⟩ := hmarks
  rename_i gap lead text
  obtain ⟨front, rfl⟩ := hspells.ends_colon
  exact ⟨'(' :: (lineDigits ++ ',' :: (columnDigits ++ ')' :: (gap ++ ':' :: (lead ++ front)))),
    by simp⟩

theorem markedAt_append_blank (hgap : Blank gap) :
    MarkedAt (line ++ gap) index ↔ MarkedAt line index := by
  refine ⟨?_, fun hmarked => hmarked.before gap⟩
  rintro ⟨lineDigits, columnDigits, headline, text, hmarks, hbegins⟩
  refine ⟨lineDigits, columnDigits, headline, text, hmarks, ?_⟩
  obtain ⟨front, rfl⟩ := hmarks.ends_colon
  rw [List.drop_append] at hbegins
  exact prefix_of_prefix_append_run (by decide)
    (fun c hc => hgap c (List.mem_of_mem_drop hc)) hbegins

theorem indent_append (hmarked : MarkedAt line index) (back : List Char) :
    indent (line ++ back) = indent line := by
  have hindent := (markedAt_iff_trimStart.mp hmarked).1
  have hlength := hmarked.lt_length
  have hstop : (line.takeWhile isBlank).length ≠ line.length := by
    rw [indent] at hindent
    omega
  rw [indent, indent, List.takeWhile_append, if_neg hstop]

theorem PlaceAt.append_blank (hgap : Blank gap) (hplace : PlaceAt line index) :
    PlaceAt (line ++ gap) index := by
  have hindent := indent_append hplace.markedAt gap
  cases hplace with
  | behindName hmarked hbehind hfirst =>
      refine .behindName (hmarked.before gap) (hindent ▸ hbehind) fun other hother hmark => ?_
      exact hfirst other (hindent ▸ hother) ((markedAt_append_blank hgap).mp hmark)
  | behindBlanks hmarked hpositive hbehind hnone =>
      refine .behindBlanks (hmarked.before gap) hpositive (hindent ▸ hbehind)
        fun other hother hmark => ?_
      exact hnone other (hindent ▸ hother) ((markedAt_append_blank hgap).mp hmark)

theorem Headlined.append (hheadline : Headlined line headline rest) (back : List Char) :
    Headlined (line ++ back) headline (rest ++ back) := by
  obtain ⟨gap, sender, text, hgap, hsender, hspells, rfl⟩ := hheadline
  exact ⟨gap, sender, text, hgap, hsender, hspells, by simp⟩

theorem Headlined.of_append_blank (hgap : Blank gap)
    (hheadline : Headlined (line ++ gap) headline rest) :
    ∃ message, Headlined line headline message := by
  obtain ⟨indent, sender, text, hindent, hsender, hspells, hline⟩ := hheadline
  obtain ⟨front, rfl⟩ := hspells.ends_colon
  have hbegins : indent ++ (sender ++ front) ++ [':'] <+: line ++ gap := ⟨rest, by simp [hline]⟩
  obtain ⟨message, hmessage⟩ := prefix_of_prefix_append_run (by decide) hgap hbegins
  exact ⟨message, indent, sender, _, hindent, hsender, hspells, by simp [← hmessage]⟩

/-- Blanks behind a line change nothing of what it reports. -/
theorem Reports.append_blank (hgap : Blank gap) (hreports : Reports line answer) :
    Reports (line ++ gap) answer := by
  have hmarks : (∀ index ≥ 1, ¬MarkedAt line index) → ∀ index ≥ 1, ¬MarkedAt (line ++ gap) index :=
    fun hnone index hindex hmarked => hnone index hindex ((markedAt_append_blank hgap).mp hmarked)
  cases hreports with
  | @placed before _ _ _ text rest _ _ hline hplace hmarked hlineNumber hcolumnNumber =>
      have hlonger : line ++ gap = before ++ (text ++ (rest ++ gap)) := by simp [hline]
      rw [← trim_append_blank (s := rest) hgap]
      exact .placed hlonger (hplace.append_blank hgap) hmarked hlineNumber hcolumnNumber
  | @unplaced _ rest hnone hheadline =>
      rw [← trim_append_blank (s := rest) hgap]
      exact .unplaced (hmarks hnone) (hheadline.append gap)
  | nothing hnone hsilent =>
      refine .nothing (hmarks hnone) fun headline rest hheadline => ?_
      obtain ⟨message, hread⟩ := hheadline.of_append_blank hgap
      exact hsilent headline message hread

theorem ofLine?_append_blank (hline : '\n' ∉ line) (hgap : Blank gap) (hbroken : '\n' ∉ gap) :
    ofLine? (line ++ gap) = ofLine? line := by
  refine ofLine?_of_reports ?_ ((reports_ofLine? hline).append_blank hgap)
  simp [hline, hbroken]

/-! ## Line ends -/

theorem ofLine?_nil : ofLine? [] = none := by decide

theorem ofLine?_append_return (hline : '\n' ∉ line) : ofLine? (line ++ ['\r']) = ofLine? line :=
  ofLine?_append_blank hline (List.all_eq_true.mp (by decide)) (by decide)

theorem ofLine?_dropReturn (hline : '\n' ∉ line) : ofLine? (dropReturn line) = ofLine? line := by
  rw [dropReturn]
  split
  · next hlast =>
    obtain ⟨front, rfl⟩ := List.getLast?_eq_some_iff.mp hlast
    have hfront : '\n' ∉ front := fun hmem => hline (List.mem_append_left _ hmem)
    rw [List.dropLast_concat, ofLine?_append_return hfront]
  · rfl

/-- An output has the diagnostics of the pieces between its line feeds. -/
theorem ofOutput_eq (s : List Char) : ofOutput s = (split '\n' s).filterMap ofLine? := by
  obtain ⟨init, last, hpieces⟩ : ∃ init last, split '\n' s = init ++ [last] :=
    (List.eq_nil_or_concat' _).resolve_left (splitWhere_ne_nil _ s)
  have hreturns : (init.map dropReturn).filterMap ofLine? = init.filterMap ofLine? := by
    rw [List.filterMap_map]
    refine List.filterMap_congr fun piece hpiece => ofLine?_dropReturn ?_
    exact not_mem_of_mem_split (hpieces ▸ List.mem_append_left _ hpiece)
  have hlast : (lastLine last).filterMap ofLine? = [last].filterMap ofLine? := by
    cases last with
    | nil => rw [List.filterMap_cons_none ofLine?_nil]; rfl
    | cons c last => rfl
  simp only [ofOutput, lines, hpieces, List.dropLast_concat, List.getLastD_concat,
    List.filterMap_append, hreturns, hlast]

theorem ofOutput_append_newline (a b : List Char) :
    ofOutput (a ++ '\n' :: b) = ofOutput a ++ ofOutput b := by
  rw [ofOutput_eq, ofOutput_eq, ofOutput_eq, split_append_cons, List.filterMap_append]

theorem ofOutput_line (hline : '\n' ∉ line) : ofOutput line = [line].filterMap ofLine? := by
  rw [ofOutput_eq, split_of_not_mem hline]

theorem ofOutput_append_return (s : List Char) : ofOutput (s ++ ['\r']) = ofOutput s := by
  obtain ⟨init, last, hs, hreturn⟩ := split_append_of_not_mem (by decide : '\n' ∉ ['\r']) s
  have hlast : '\n' ∉ last :=
    not_mem_of_mem_split (hs ▸ List.mem_append_right init List.mem_cons_self)
  have hsame : [last ++ ['\r']].filterMap ofLine? = [last].filterMap ofLine? := by
    simp only [List.filterMap_cons, ofLine?_append_return hlast]
  rw [ofOutput_eq, ofOutput_eq, hs, hreturn, List.filterMap_append, List.filterMap_append, hsame]

/-- The text with a carriage return before every line feed. -/
def withReturns : List Char → List Char
  | [] => []
  | c :: rest => if c = '\n' then '\r' :: '\n' :: withReturns rest else c :: withReturns rest

theorem ofOutput_withReturns (front s : List Char) :
    ofOutput (front ++ withReturns s) = ofOutput (front ++ s) := by
  -- Characters that are done move to the front, so a step is about a line feed anywhere in a text.
  induction s generalizing front with
  | nil => rfl
  | cons c s ih =>
      rw [withReturns]
      split
      · next hc =>
        have hbehind := ih []
        rw [List.nil_append, List.nil_append] at hbehind
        rw [hc, List.append_cons front '\r', ofOutput_append_newline, ofOutput_append_newline,
          ofOutput_append_return, hbehind]
      · rw [List.append_cons, ih, ← List.append_cons]

/-- A line with its end: a line feed, with a carriage return before it where one is asked for. -/
def ended (line : List Char × Bool) : List Char :=
  line.1 ++ if line.2 then ['\r', '\n'] else ['\n']

theorem ofOutput_ended (line : List Char × Bool) (hline : '\n' ∉ line.1) (rest : List Char) :
    ofOutput (ended line ++ rest) = [line.1].filterMap ofLine? ++ ofOutput rest := by
  obtain ⟨line, returned⟩ := line
  cases returned with
  | false =>
      have hcut : ended (line, false) ++ rest = line ++ '\n' :: rest := by simp [ended]
      rw [hcut, ofOutput_append_newline, ofOutput_line hline]
  | true =>
      have hcut : ended (line, true) ++ rest = (line ++ ['\r']) ++ '\n' :: rest := by simp [ended]
      rw [hcut, ofOutput_append_newline, ofOutput_append_return, ofOutput_line hline]

/-- A line feed cuts an output in two, each with its own diagnostics, and carriage returns before
the line feeds change nothing.  So an output has, in the order of its lines, one diagnostic for each
line that is one, whichever way each line ends and whether or not the last one does. -/
theorem ofOutput_by_lines (a b : List Char) (whole : List (List Char × Bool)) (last : List Char) :
    ofOutput (a ++ '\n' :: b) = ofOutput a ++ ofOutput b ∧
    ofOutput (withReturns a) = ofOutput a ∧
    ((∀ line ∈ whole, '\n' ∉ line.1) → '\n' ∉ last →
      ofOutput (whole.flatMap ended ++ last) =
        (whole.map Prod.fst ++ [last]).filterMap ofLine?) := by
  refine ⟨ofOutput_append_newline a b, ofOutput_withReturns [] a, fun hlines hlast => ?_⟩
  induction whole with
  | nil => exact ofOutput_line hlast
  | cons line whole ih =>
      have hrest := ih fun other hother => hlines other (List.mem_cons_of_mem line hother)
      rw [List.flatMap_cons, List.append_assoc,
        ofOutput_ended line (hlines line List.mem_cons_self),
        hrest, ← List.filterMap_append]
      rfl

/-- Lines that end in different ways, one that is no diagnostic, and a last one without an end but
with a carriage return. -/
def mixedLines : List (List Char × Bool) :=
  [("a.cs(1,2): error CS1: x".toList, true), ("Compilation failed".toList, false),
    (" csc : warning CS2: y".toList, false)]

theorem ofOutput_by_lines_mixed :
    let last := "error CS3: z\r".toList
    (∀ line ∈ mixedLines, '\n' ∉ line.1) ∧ '\n' ∉ last ∧
    ofOutput (mixedLines.flatMap ended ++ last) =
      [⟨.error, some ⟨"a.cs"⟩, some 1, some 2, some "CS1", "x"⟩,
        ⟨.warning, none, none, none, some "CS2", "y"⟩, ⟨.error, none, none, none, some "CS3", "z"⟩] := by
  intro last
  have hlines : ∀ line ∈ mixedLines, '\n' ∉ line.1 := by decide
  have hlast : '\n' ∉ last := by decide
  refine ⟨hlines, hlast, ?_⟩
  rw [(ofOutput_by_lines [] [] mixedLines last).2.2 hlines hlast]
  decide +kernel

end ScriptAssembly.Diagnostic
