/-!
# Splitting a text

`splitWhere` cuts a text at every character of a class and drops those characters.  Cutting is
compositional: a cut between two texts separates their pieces, `splitWhere_append_cut`.  With a
single separator nothing is lost, `join_split`, and pieces without it are found again, `split_join`.
-/

namespace ScriptAssembly.Text

/-- The pieces of a text between the characters that `isCut` holds of: one more than there are
such characters. -/
def splitWhere (isCut : Char → Bool) : List Char → List (List Char)
  | [] => [[]]
  | c :: rest =>
    if isCut c then [] :: splitWhere isCut rest
    else match splitWhere isCut rest with
      | [] => [[c]]
      | first :: others => (c :: first) :: others

/-- The pieces of a text between the separators. -/
def split (separator : Char) (s : List Char) : List (List Char) :=
  splitWhere (· == separator) s

/-- The pieces joined again, with a separator between neighbours. -/
def join (separator : Char) : List (List Char) → List Char
  | [] => []
  | [piece] => piece
  | piece :: others => piece ++ separator :: join separator others

theorem splitWhere_ne_nil (isCut : Char → Bool) (s : List Char) : splitWhere isCut s ≠ [] := by
  cases s with
  | nil => simp [splitWhere]
  | cons c rest =>
    simp only [splitWhere]
    split
    · simp
    · split <;> simp

theorem splitWhere_append_cut {isCut : Char → Bool} {cut : Char} (hcut : isCut cut = true)
    (a b : List Char) :
    splitWhere isCut (a ++ cut :: b) = splitWhere isCut a ++ splitWhere isCut b := by
  induction a with
  | nil => simp [splitWhere, hcut]
  | cons c rest ih =>
    by_cases hc : isCut c = true
    · simp [splitWhere, hc, ih]
    · cases hparts : splitWhere isCut rest with
      | nil => exact absurd hparts (splitWhere_ne_nil isCut rest)
      | cons first others => simp [splitWhere, hc, ih, hparts]

theorem splitWhere_of_not_cut {isCut : Char → Bool} {s : List Char}
    (hs : ∀ c ∈ s, isCut c = false) : splitWhere isCut s = [s] := by
  induction s with
  | nil => rfl
  | cons c rest ih =>
    have hc : isCut c = false := hs c List.mem_cons_self
    have hrest := ih fun d hd => hs d (List.mem_cons_of_mem c hd)
    simp [splitWhere, hc, hrest]

theorem split_append_cons (separator : Char) (front rest : List Char) :
    split separator (front ++ separator :: rest) = split separator front ++ split separator rest :=
  splitWhere_append_cut (by simp) front rest

theorem split_of_not_mem {separator : Char} {s : List Char} (hs : separator ∉ s) :
    split separator s = [s] := by
  refine splitWhere_of_not_cut fun c hc => beq_eq_false_iff_ne.mpr ?_
  rintro rfl
  exact hs hc

theorem not_mem_of_mem_split {separator : Char} {s piece : List Char}
    (hpiece : piece ∈ split separator s) : separator ∉ piece := by
  induction s generalizing piece with
  | nil =>
      rw [split, splitWhere, List.mem_singleton] at hpiece
      simp [hpiece]
  | cons c rest ih =>
      unfold split at ih hpiece
      rw [splitWhere] at hpiece
      split at hpiece
      · rcases List.mem_cons.mp hpiece with rfl | hrest
        · exact List.not_mem_nil
        · exact ih hrest
      · rename_i hc
        have hne : separator ≠ c := fun hsame => hc (by simp [hsame])
        split at hpiece
        · rw [List.mem_singleton] at hpiece
          subst hpiece
          exact fun hmem => hne (List.mem_singleton.mp hmem)
        · rename_i first others hparts
          rw [hparts] at ih
          rcases List.mem_cons.mp hpiece with rfl | hrest
          · exact List.not_mem_cons_of_ne_of_not_mem hne (ih List.mem_cons_self)
          · exact ih (List.mem_cons_of_mem first hrest)

/-- What follows a text without a separator in it belongs to the last piece. -/
theorem split_append_of_not_mem {separator : Char} {back : List Char} (hback : separator ∉ back)
    (s : List Char) : ∃ init last, split separator s = init ++ [last] ∧
      split separator (s ++ back) = init ++ [last ++ back] := by
  induction s with
  | nil => exact ⟨[], [], rfl, split_of_not_mem hback⟩
  | cons c s ih =>
      obtain ⟨init, last, hs, hlonger⟩ := ih
      unfold split at hs hlonger ⊢
      by_cases hc : c = separator
      · exact ⟨[] :: init, last, by simp [splitWhere, hc, hs], by simp [splitWhere, hc, hlonger]⟩
      · cases init with
        | nil =>
            exact ⟨[], c :: last, by simp [splitWhere, hc, hs], by simp [splitWhere, hc, hlonger]⟩
        | cons first init =>
            exact ⟨(c :: first) :: init, last, by simp [splitWhere, hc, hs],
              by simp [splitWhere, hc, hlonger]⟩

theorem join_cons_of_ne_nil {separator : Char} (piece : List Char) {others : List (List Char)}
    (hothers : others ≠ []) :
    join separator (piece :: others) = piece ++ separator :: join separator others := by
  cases others with
  | nil => exact absurd rfl hothers
  | cons second more => rfl

theorem join_split (separator : Char) (s : List Char) :
    join separator (split separator s) = s := by
  induction s with
  | nil => rfl
  | cons c rest ih =>
    unfold split at ih ⊢
    by_cases hc : c = separator
    · simp only [splitWhere, hc, beq_self_eq_true, ↓reduceIte]
      rw [join_cons_of_ne_nil _ (splitWhere_ne_nil _ rest), ih]
      rfl
    · cases hparts : splitWhere (· == separator) rest with
      | nil => exact absurd hparts (splitWhere_ne_nil _ rest)
      | cons first others =>
        rw [hparts] at ih
        simp only [splitWhere, beq_iff_eq, hc, ↓reduceIte, hparts]
        cases others with
        | nil => exact congrArg (c :: ·) ih
        | cons second more => exact congrArg (c :: ·) ih

theorem split_join {separator : Char} {parts : List (List Char)} (hne : parts ≠ [])
    (hparts : ∀ piece ∈ parts, separator ∉ piece) :
    split separator (join separator parts) = parts := by
  induction parts with
  | nil => exact absurd rfl hne
  | cons piece others ih =>
      have hpiece := split_of_not_mem (hparts piece List.mem_cons_self)
      by_cases hothers : others = []
      · subst hothers
        exact hpiece
      · have hrest := ih hothers fun other hother => hparts other (List.mem_cons_of_mem piece hother)
        rw [join_cons_of_ne_nil piece hothers, split_append_cons, hpiece, hrest]
        rfl

theorem mem_join {separator c : Char} {parts : List (List Char)} (hc : c ∈ join separator parts) :
    c = separator ∨ ∃ piece ∈ parts, c ∈ piece := by
  induction parts with
  | nil => cases hc
  | cons piece others ih =>
      by_cases hothers : others = []
      · subst hothers
        exact .inr ⟨piece, List.mem_cons_self, hc⟩
      · rw [join_cons_of_ne_nil piece hothers, List.mem_append, List.mem_cons] at hc
        rcases hc with hpiece | rfl | hrest
        · exact .inr ⟨piece, List.mem_cons_self, hpiece⟩
        · exact .inl rfl
        · refine (ih hrest).imp_right ?_
          rintro ⟨other, hother, hmem⟩
          exact ⟨other, List.mem_cons_of_mem piece hother, hmem⟩

theorem mem_join_of_mem {separator c : Char} {piece : List Char} {parts : List (List Char)}
    (hpiece : piece ∈ parts) (hc : c ∈ piece) : c ∈ join separator parts := by
  induction parts with
  | nil => cases hpiece
  | cons first others ih =>
      by_cases hothers : others = []
      · subst hothers
        rw [List.mem_singleton] at hpiece
        exact hpiece ▸ hc
      · rw [join_cons_of_ne_nil first hothers, List.mem_append, List.mem_cons]
        rcases List.mem_cons.mp hpiece with rfl | hrest
        · exact .inl hc
        · exact .inr (.inr (ih hrest))

end ScriptAssembly.Text
