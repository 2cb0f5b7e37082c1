import ScriptAssembly.Proofs.Diagnostic.Mark

/-!
# File names of diagnostics

The file of a diagnostic is what stands before its place, without blanks at its ends.  It has a name
exactly if a place stands behind a character of the line that is no leading blank.  Where none does,
a place right behind the leading blanks is taken, and the last of these blanks stands for the name;
then the file has the empty name.
-/

namespace ScriptAssembly.Diagnostic

open Text

variable {s before line name rest : List Char} {locus : Locus} {d : Diagnostic} {f : Path}

/-- The text begins with a mark, and the message behind it fits on the line. -/
def BeginsPlace (s : List Char) : Prop :=
  ∃ lineDigits columnDigits headline text rest,
    Marks lineDigits columnDigits headline text ∧ s = text ++ rest ∧ '\n' ∉ trim rest

/-- The text begins with a name on one line, and a place follows the name. -/
def NamesFile (s : List Char) : Prop :=
  ∃ name behind, s = name ++ behind ∧ name ≠ [] ∧ '\n' ∉ name ∧ BeginsPlace behind

theorem beginsPlace_iff :
    BeginsPlace s ↔ ∃ locus, locusAt? s = some locus ∧ '\n' ∉ trim locus.rest := by
  constructor
  · rintro ⟨line, column, headline, text, rest, hmarks, hs, hrest⟩
    exact ⟨⟨line, column, headline, rest⟩, locusAt?_eq_some_iff.mpr ⟨text, hmarks, hs⟩, hrest⟩
  · rintro ⟨locus, hlocus, hrest⟩
    obtain ⟨text, hmarks, hs⟩ := locusAt?_eq_some_iff.mp hlocus
    exact ⟨_, _, _, text, locus.rest, hmarks, hs, hrest⟩

theorem atPlace?_isSome_iff : (atPlace? name locus).isSome ↔ '\n' ∉ trim locus.rest := by
  rw [atPlace?, Option.isSome_map, messageOf?]
  split
  · next hbroken => simp [hbroken]
  · next hfits => simp [hfits]

theorem file_of_atPlace? (hfound : atPlace? name locus = some d) :
    d.file = some ⟨.ofList (trim name)⟩ := by
  obtain ⟨message, -, rfl⟩ := Option.map_eq_some_iff.mp hfound
  rfl

/-- A place at the start of the text is read with the name before it. -/
theorem bind_atPlace?_isSome_iff :
    ((locusAt? s).bind (atPlace? name)).isSome ↔ BeginsPlace s := by
  rw [beginsPlace_iff]
  cases hlocus : locusAt? s with
  | none => simp
  | some locus => simp [atPlace?_isSome_iff]

theorem file_of_bind_atPlace? (hfound : (locusAt? s).bind (atPlace? name) = some d) :
    d.file = some ⟨.ofList (trim name)⟩ := by
  obtain ⟨locus, -, hplace⟩ := Option.bind_eq_some_iff.mp hfound
  exact file_of_atPlace? hplace

theorem namesFile_nil : ¬NamesFile [] := by
  rintro ⟨name, behind, hsplit, hname, -, -⟩
  exact hname (List.append_eq_nil_iff.mp hsplit.symm).1

theorem namesFile_cons {c : Char} :
    NamesFile (c :: s) ↔ c ≠ '\n' ∧ (BeginsPlace s ∨ NamesFile s) := by
  constructor
  · rintro ⟨name, behind, hsplit, hname, hline, hplace⟩
    obtain ⟨first, name, rfl⟩ := List.exists_cons_of_ne_nil hname
    rw [List.cons_append, List.cons.injEq] at hsplit
    obtain ⟨rfl, rfl⟩ := hsplit
    rw [List.mem_cons, not_or] at hline
    refine ⟨Ne.symm hline.1, ?_⟩
    by_cases hempty : name = []
    · exact .inl (hempty ▸ hplace)
    · exact .inr ⟨name, behind, rfl, hempty, hline.2, hplace⟩
  · rintro ⟨hc, hplace | ⟨name, behind, rfl, hname, hline, hplace⟩⟩
    · exact ⟨[c], s, rfl, List.cons_ne_nil c [], by simpa using Ne.symm hc, hplace⟩
    · exact ⟨c :: name, behind, rfl, List.cons_ne_nil c name, by simp [Ne.symm hc, hline], hplace⟩

/-- A place behind a name is found exactly if there is one. -/
theorem locateFrom?_isSome_iff : (locateFrom? before s).isSome ↔ NamesFile s := by
  induction s generalizing before with
  | nil => simp [locateFrom?, namesFile_nil]
  | cons c s ih =>
      rw [locateFrom?, namesFile_cons, ← @bind_atPlace?_isSome_iff s (c :: before).reverse]
      split
      · next hbroken => simp [hbroken]
      · next hline =>
        cases hfound : (locusAt? s).bind fun locus => atPlace? (c :: before).reverse locus with
        | some found => simp [hline]
        | none => simp [hline, ih]

/-- The file of a place that is found has the name that was passed. -/
theorem file_of_locateFrom? (hfound : locateFrom? before s = some d) :
    ∃ passed, passed ≠ [] ∧ passed <+: s ∧
      d.file = some ⟨.ofList (trim (before.reverse ++ passed))⟩ := by
  induction s generalizing before with
  | nil => cases hfound
  | cons c s ih =>
      rw [locateFrom?] at hfound
      split at hfound
      · cases hfound
      · split at hfound
        · next found hplace =>
          cases hfound
          exact ⟨[c], List.cons_ne_nil c [], ⟨s, rfl⟩, by
            simpa using file_of_bind_atPlace? hplace⟩
        · obtain ⟨passed, -, hbegins, hfile⟩ := ih hfound
          refine ⟨c :: passed, List.cons_ne_nil c passed,
            List.cons_prefix_cons.mpr ⟨rfl, hbegins⟩, ?_⟩
          simpa using hfile

/-- The file of a located line is trimmed, and it has a name exactly if the line names one. -/
theorem file_of_located? (hfound : located? line = some d) :
    ∃ name, d.file = some ⟨.ofList (trim name)⟩ ∧ (trim name ≠ [] ↔ NamesFile (trimStart line)) ∧
      (trim name = [] → ∃ gap behind, line = gap ++ behind ∧ Blank gap ∧ gap ≠ [] ∧
        BeginsPlace behind) := by
  unfold located? at hfound
  dsimp only at hfound
  rw [← trimStart] at hfound
  have hnamed := @locateFrom?_isSome_iff (trimStart line) []
  cases hlocate : locateFrom? [] (trimStart line) with
  | some found =>
      rw [hlocate] at hfound hnamed
      cases hfound
      obtain ⟨passed, hpassed, hbegins, hfile⟩ := file_of_locateFrom? hlocate
      obtain ⟨c, passed, rfl⟩ := List.exists_cons_of_ne_nil hpassed
      obtain ⟨behind, hbody⟩ := hbegins
      have hends := ends_trimStart line
      rw [← hbody, List.cons_append] at hends
      have hspoken : trim (c :: passed) ≠ [] := trim_ne_nil (ends_cons.mp hends)
      exact ⟨c :: passed, hfile, iff_of_true hspoken (hnamed.mp rfl), fun hempty =>
        absurd hempty hspoken⟩
  | none =>
      rw [hlocate] at hfound hnamed
      dsimp only at hfound
      split at hfound
      · next last hlast =>
        split at hfound
        · cases hfound
        · have hplace := bind_atPlace?_isSome_iff.mp (Option.isSome_of_eq_some hfound)
          refine ⟨[], file_of_bind_atPlace? hfound, iff_of_false (fun hne => hne rfl) ?_,
            fun _ => ?_⟩
          · exact fun hname => by simpa using hnamed.mpr hname
          · exact ⟨line.takeWhile isBlank, trimStart line, List.takeWhile_append_dropWhile.symm,
              fun c hc => mem_takeWhile hc, List.ne_nil_of_mem (List.mem_of_getLast? hlast), hplace⟩
      · cases hfound

theorem file_of_unlocated? (hfound : unlocated? line = some d) : d.file = none := by
  simp only [unlocated?, bind] at hfound
  split at hfound
  all_goals
    obtain ⟨⟨headline, rest⟩, -, hfits⟩ := Option.bind_eq_some_iff.mp hfound
    obtain ⟨message, -, hread⟩ := Option.bind_eq_some_iff.mp hfits
    cases hread
    rfl

/-- The name of the file of a diagnostic has no blanks at its ends.  It is not empty exactly if a
place stands behind a name on the line; the empty name comes from a line on which a place stands
right behind leading blanks. -/
theorem file_of_ofLine? (line : List Char) (d : Diagnostic) (f : Path)
    (hread : ofLine? line = some d) (hfile : d.file = some f) :
    trim f.text.toList = f.text.toList ∧ (f.text ≠ "" ↔ NamesFile (trimStart line)) ∧
      (f.text = "" → ∃ gap behind, line = gap ++ behind ∧ Blank gap ∧ gap ≠ [] ∧
        BeginsPlace behind) := by
  rw [ofLine?] at hread
  split at hread
  · next found hlocated =>
    cases hread
    obtain ⟨name, hname, hnamed, hblank⟩ := file_of_located? hlocated
    rw [hfile] at hname
    cases hname
    have hempty : String.ofList (trim name) = "" ↔ trim name = [] := by
      rw [← String.toList_eq_nil_iff, String.toList_ofList]
    rw [String.toList_ofList, trim_trim, ne_eq, hempty]
    exact ⟨rfl, hnamed, hblank⟩
  · rw [file_of_unlocated? hread] at hfile
    cases hfile

/-- A place behind blanks and nothing else. -/
def blankName : List Char := "  (1,2): error CS1: m".toList

theorem ofLine?_blankName :
    ofLine? blankName = some ⟨.error, some ⟨""⟩, some 1, some 2, some "CS1", "m"⟩ := by
  decide +kernel

/-- Behind blanks alone the place has a file with the empty name. -/
theorem file_of_ofLine?_blankName :
    ofLine? blankName = some ⟨.error, some ⟨""⟩, some 1, some 2, some "CS1", "m"⟩ ∧
    ¬NamesFile (trimStart blankName) ∧
    ∃ gap behind, blankName = gap ++ behind ∧ Blank gap ∧ gap ≠ [] ∧ BeginsPlace behind := by
  obtain ⟨-, hnamed, hblank⟩ := file_of_ofLine? blankName _ ⟨""⟩ ofLine?_blankName rfl
  exact ⟨ofLine?_blankName, fun hname => hnamed.mpr hname rfl, hblank rfl⟩

/-- Not every file that a diagnostic is about has a name. -/
theorem file_without_name :
    ¬∀ line d f, ofLine? line = some d → d.file = some f →
      f.text ≠ "" ∧ trim f.text.toList = f.text.toList := by
  intro hnamed
  exact (hnamed blankName _ ⟨""⟩ ofLine?_blankName rfl).1 rfl

end ScriptAssembly.Diagnostic
