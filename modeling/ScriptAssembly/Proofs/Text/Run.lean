import Mathlib
import ScriptAssembly.Text.Search
import ScriptAssembly.Text.Trim

/-!
# Runs of characters

A reader that takes the longest run of a class of characters takes exactly the run that was written,
as long as the text behind it begins with a character outside the class.  The classes of blanks,
digits and letters have no character in common.
-/

namespace ScriptAssembly.Text

variable {p : Char → Bool} {run rest s : List Char} {c : Char} {word : String}

/-- The text does not begin with a character of the class. -/
def Ends (p : Char → Bool) (s : List Char) : Prop := ∀ c ∈ s.head?, p c = false

@[simp]
theorem ends_nil : Ends p [] := by simp [Ends]

@[simp]
theorem ends_cons : Ends p (c :: s) ↔ p c = false := by simp [Ends]

theorem ends_append (hrun : run ≠ []) (hends : Ends p run) : Ends p (run ++ s) := by
  cases run with
  | nil => exact absurd rfl hrun
  | cons c run => exact ends_cons.mpr (ends_cons.mp hends)

theorem Ends.of_append (hends : Ends p (run ++ rest)) : Ends p run := by
  cases run with
  | nil => exact ends_nil
  | cons c run => exact ends_cons.mpr (ends_cons.mp hends)

theorem ends_dropWhile (p : Char → Bool) (s : List Char) : Ends p (s.dropWhile p) := by
  intro c hc
  have hstop := List.head?_dropWhile_not p s
  rw [Option.mem_def.mp hc] at hstop
  exact hstop

theorem mem_takeWhile (hc : c ∈ s.takeWhile p) : p c :=
  List.all_eq_true.mp List.all_takeWhile c hc

theorem takeWhile_run (hrun : ∀ c ∈ run, p c) (hrest : Ends p rest) :
    (run ++ rest).takeWhile p = run := by
  rw [List.takeWhile_append_of_pos hrun]
  cases rest with
  | nil => simp
  | cons c rest =>
      have hc := ends_cons.mp hrest
      simp [hc]

theorem dropWhile_run (hrun : ∀ c ∈ run, p c) (hrest : Ends p rest) :
    (run ++ rest).dropWhile p = rest := by
  rw [List.dropWhile_append_of_pos hrun]
  cases rest with
  | nil => simp
  | cons c rest =>
      have hc := ends_cons.mp hrest
      simp [hc]

theorem not_mem_of_run (hrun : ∀ c ∈ run, p c) (hc : p c = false) : c ∉ run := by
  intro hmem
  rw [hrun c hmem] at hc
  cases hc

/-- What has no `c` in it and begins a text ends before the first `c` of the text. -/
theorem prefix_of_prefix_append_cons (hrun : c ∉ run) (hbegins : run <+: s ++ c :: rest) :
    run <+: s := by
  rcases List.prefix_or_prefix_of_prefix hbegins (List.prefix_append s (c :: rest)) with
    hshort | ⟨more, rfl⟩
  · exact hshort
  · rw [List.prefix_append_right_inj] at hbegins
    cases more with
    | nil => simp
    | cons d more =>
        obtain ⟨hd, -⟩ := List.cons_prefix_cons.mp hbegins
        simp [hd] at hrun

/-- What ends outside a class and begins a text ends before the run of the class behind the text. -/
theorem prefix_of_prefix_append_run (hc : p c = false) (hrun : ∀ d ∈ run, p d)
    (hbegins : s ++ [c] <+: rest ++ run) : s ++ [c] <+: rest := by
  rcases List.prefix_or_prefix_of_prefix hbegins (List.prefix_append rest run) with
    hshort | ⟨more, hmore⟩
  · exact hshort
  · rw [← hmore, List.prefix_append_right_inj] at hbegins
    rcases List.eq_nil_or_concat' more with rfl | ⟨front, d, rfl⟩
    · rw [← hmore, List.append_nil]
    · have hlast : d = c := by
        rw [← List.append_assoc] at hmore
        exact List.singleton_inj.mp (List.append_inj_right' hmore rfl)
      have hin := hrun d (hbegins.subset (List.mem_append_right front List.mem_cons_self))
      rw [hlast, hc] at hin
      cases hin

theorem after?_eq_some_iff : after? word s = some rest ↔ s = word.toList ++ rest := by
  rw [after?, List.isPrefixOf?_eq_some_iff_append_eq, eq_comm]

/-! ## Classes -/

theorem not_inRanges_of_apart {ranges others : List (Nat × Nat)}
    (hapart : ∀ range ∈ ranges, ∀ other ∈ others, range.2 < other.1 ∨ other.2 < range.1)
    (hc : inRanges ranges c) : inRanges others c = false := by
  obtain ⟨range, hrange, hin⟩ := List.any_eq_true.mp hc
  refine List.any_eq_false.mpr fun other hother => ?_
  simp only [Bool.and_eq_true, decide_eq_true_eq] at hin ⊢
  have hdisjoint := hapart range hrange other hother
  omega

theorem char_isAlpha_iff :
    c.isAlpha ↔ 65 ≤ c.toNat ∧ c.toNat ≤ 90 ∨ 97 ≤ c.toNat ∧ c.toNat ≤ 122 := by
  simp only [Char.isAlpha, Char.isUpper, Char.isLower, Bool.or_eq_true, Bool.and_eq_true,
    decide_eq_true_eq, ge_iff_le]
  rfl

theorem char_isDigit_iff : c.isDigit ↔ 48 ≤ c.toNat ∧ c.toNat ≤ 57 := by
  simp only [Char.isDigit, Bool.and_eq_true, decide_eq_true_eq, ge_iff_le]
  rfl

theorem isDigit_of_char_isDigit (hc : c.isDigit) : isDigit c := by
  have hascii := char_isDigit_iff.mp hc
  rw [isDigit, if_pos (by omega)]
  exact hc

theorem isBlank_eq_false_of_isDigit (hc : isDigit c) : isBlank c = false := by
  unfold isDigit at hc
  split at hc
  · have hascii : inRanges [(48, 57)] c := by
      simpa [inRanges] using char_isDigit_iff.mp hc
    exact not_inRanges_of_apart (by decide) hascii
  · exact not_inRanges_of_apart (by decide) hc

theorem isBlank_eq_false_of_isAlpha (hc : c.isAlpha) : isBlank c = false := by
  have hascii : inRanges [(65, 90), (97, 122)] c := by
    simpa [inRanges] using char_isAlpha_iff.mp hc
  exact not_inRanges_of_apart (by decide) hascii

theorem isAlpha_eq_false_of_isDigit (hc : isDigit c) : c.isAlpha = false := by
  refine Bool.eq_false_iff.mpr fun hletter => ?_
  have hascii := char_isAlpha_iff.mp hletter
  rw [isDigit, if_pos (by omega)] at hc
  have hdigit := char_isDigit_iff.mp hc
  omega

theorem isBlank_eq_false_of_isWord (hc : isWord c) : isBlank c = false := by
  unfold isWord at hc
  split at hc
  · simp only [Char.isAlphanum, Bool.or_eq_true, beq_iff_eq] at hc
    rcases hc with (hletter | hdigit) | rfl
    · exact isBlank_eq_false_of_isAlpha hletter
    · exact isBlank_eq_false_of_isDigit (isDigit_of_char_isDigit hdigit)
    · decide
  · exact not_inRanges_of_apart (by decide +kernel) hc

/-! ## Blanks around a text -/

/-- Blanks and nothing else. -/
def Blank (gap : List Char) : Prop := ∀ c ∈ gap, isBlank c

theorem blank_nil : Blank [] := fun _ hc => absurd hc List.not_mem_nil

theorem blank_space : Blank [' '] := by
  intro c hc
  rw [List.mem_singleton.mp hc]
  decide

theorem Blank.isWord_eq_false {gap : List Char} (hgap : Blank gap) :
    ∀ c ∈ gap, isWord c = false := by
  intro c hc
  refine Bool.eq_false_iff.mpr fun hword => ?_
  have hblank := hgap c hc
  rw [isBlank_eq_false_of_isWord hword] at hblank
  cases hblank

theorem exists_blank_trimStart (s : List Char) : ∃ gap, Blank gap ∧ s = gap ++ trimStart s :=
  ⟨s.takeWhile isBlank, fun _ hc => mem_takeWhile hc, List.takeWhile_append_dropWhile.symm⟩

theorem ends_trimStart (s : List Char) : Ends isBlank (trimStart s) := ends_dropWhile isBlank s

theorem trimStart_of_ends (hends : Ends isBlank s) : trimStart s = s :=
  dropWhile_run (fun _ hc => absurd hc List.not_mem_nil) hends

theorem trimStart_blank_append {gap : List Char} (hgap : Blank gap) :
    trimStart (gap ++ s) = trimStart s := List.dropWhile_append_of_pos hgap

theorem trimStart_append_blank {gap : List Char} (hgap : Blank gap) :
    trimStart (s ++ gap) = if trimStart s = [] then [] else trimStart s ++ gap := by
  have hempty : gap.dropWhile isBlank = [] := List.dropWhile_eq_nil_iff.mpr hgap
  rw [trimStart, trimStart, List.dropWhile_append, hempty]
  cases s.dropWhile isBlank <;> rfl

theorem trim_blank_append {gap : List Char} (hgap : Blank gap) : trim (gap ++ s) = trim s := by
  rw [trim, trim, trimStart_blank_append hgap]

theorem trimEnd_eq_rdropWhile (s : List Char) : trimEnd s = s.rdropWhile isBlank := rfl

theorem trim_append_blank {gap : List Char} (hgap : Blank gap) : trim (s ++ gap) = trim s := by
  rw [trim, trim, trimStart_append_blank hgap]
  split
  · next hempty => rw [hempty]
  · rw [trimEnd, trimEnd, List.reverse_append, List.dropWhile_append_of_pos]
    exact fun c hc => hgap c (List.mem_reverse.mp hc)

theorem trim_begins (s : List Char) : trim s <+: trimStart s :=
  List.rdropWhile_prefix isBlank (trimStart s)

theorem mem_of_mem_trim (hc : c ∈ trim s) : c ∈ s :=
  (List.dropWhile_sublist isBlank).subset ((trim_begins s).subset hc)

theorem ends_trim (s : List Char) : Ends isBlank (trim s) := by
  obtain ⟨back, hback⟩ := trim_begins s
  exact (hback ▸ ends_trimStart s).of_append

theorem trim_trim (s : List Char) : trim (trim s) = trim s := by
  rw [trim, trimStart_of_ends (ends_trim s), trim, trimEnd_eq_rdropWhile, trimEnd_eq_rdropWhile,
    List.rdropWhile_idempotent]

theorem trimmed_trim (s : List Char) : trimmed (.ofList (trim s)) = .ofList (trim s) := by
  rw [trimmed, String.toList_ofList, trim_trim]

theorem trim_of_trimmed {text : String} (htrimmed : trimmed text = text) :
    trim text.toList = text.toList := by
  have htrim := congrArg String.toList htrimmed
  rwa [trimmed, String.toList_ofList] at htrim

theorem trim_ne_nil {c : Char} (hc : isBlank c = false) : trim (c :: s) ≠ [] := by
  intro hempty
  have hends : Ends isBlank (c :: s) := ends_cons.mpr hc
  rw [trim, trimStart_of_ends hends, trimEnd_eq_rdropWhile, List.rdropWhile_eq_nil_iff] at hempty
  have hblank := hempty c List.mem_cons_self
  rw [hc] at hblank
  cases hblank

/-- A text that is its own trim begins with no blank. -/
theorem ends_of_trim (htrim : trim s = s) : Ends isBlank s := htrim ▸ ends_trim s

theorem trim_of_not_blank (hs : ∀ c ∈ s, isBlank c = false) : trim s = s := by
  have hends : Ends isBlank s := fun c hc => hs c (List.mem_of_mem_head? hc)
  rw [trim, trimStart_of_ends hends, trimEnd_eq_rdropWhile, List.rdropWhile_eq_self_iff]
  intro hne
  simp [hs _ (List.getLast_mem hne)]

end ScriptAssembly.Text
