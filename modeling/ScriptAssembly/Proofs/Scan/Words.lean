import ScriptAssembly.Proofs.Text.Run
import ScriptAssembly.Scan.LineRule

/-!
# The words of a line

`words` lists the longest runs of word characters of a text from the left, each as often as it
stands there, `runsOf_words`.  Characters between the words can be put in and left out without
changing the list.
-/

namespace ScriptAssembly.Scan

open Text

variable {s before run other rest gap : List Char} {places : List (List Char × List Char)}
  {c : Char}

/-- `run` stands behind `before` in the text and is a longest run of word characters: none stands
right before it or right behind it. -/
structure IsRun (s before run : List Char) : Prop where
  /-- The text goes on behind the run with a character of no word, or it ends there. -/
  stands : ∃ rest, s = before ++ (run ++ rest) ∧ Ends isWord rest
  /-- The run has a character. -/
  ne_nil : run ≠ []
  /-- The run has only word characters. -/
  letters : ∀ c ∈ run, isWord c
  /-- What stands before the run ends with a character of no word, or it is empty. -/
  begins : ∀ c ∈ before.getLast?, isWord c = false

/-- Runs with the fronts behind which they stand, from the left. -/
def Ordered (places : List (List Char × List Char)) : Prop :=
  places.Pairwise fun first second => first.1.length < second.1.length

/-- The runs are all longest runs of word characters of the text, from the left. -/
def RunsOf (s : List Char) (runs : List (List Char)) : Prop :=
  ∃ places, Ordered places ∧ (∀ before run, (before, run) ∈ places ↔ IsRun s before run) ∧
    runs = places.map Prod.snd

/-! ## Reading words -/

theorem words_nil : words [] = [] := rfl

/-- A character of no word separates the words before it from those behind it. -/
theorem words_cut (a : List Char) (hc : isWord c = false) (b : List Char) :
    words (a ++ c :: b) = words a ++ words b := by
  have hcut : (!isWord c) = true := by rw [hc]; rfl
  rw [words, splitWhere_append_cut hcut, List.filter_append]
  rfl

theorem words_cons (hc : isWord c = false) : words (c :: s) = words s := words_cut [] hc s

theorem words_gap (hgap : ∀ c ∈ gap, isWord c = false) : words (gap ++ s) = words s := by
  induction gap with
  | nil => rfl
  | cons c gap ih =>
      rw [List.cons_append, words_cons (hgap c List.mem_cons_self)]
      exact ih fun d hd => hgap d (List.mem_cons_of_mem c hd)

theorem words_append_gap (hgap : ∀ c ∈ gap, isWord c = false) : words (s ++ gap) = words s := by
  cases gap with
  | nil => rw [List.append_nil]
  | cons c gap =>
      have hrest := words_gap (s := []) fun d hd => hgap d (List.mem_cons_of_mem c hd)
      rw [List.append_nil, words_nil] at hrest
      rw [words_cut s (hgap c List.mem_cons_self), hrest, List.append_nil]

theorem words_run (hrun : run ≠ []) (hword : ∀ c ∈ run, isWord c) (hrest : Ends isWord rest) :
    words (run ++ rest) = run :: words rest := by
  have halone : words run = [run] := by
    have hwhole : splitWhere (fun c => !isWord c) run = [run] :=
      splitWhere_of_not_cut fun c hc => by rw [hword c hc]; rfl
    rw [words, hwhole]
    simpa using hrun
  cases rest with
  | nil => rw [List.append_nil, halone, words_nil]
  | cons c rest =>
      have hc := ends_cons.mp hrest
      rw [words_cut run hc, halone, words_cons hc]
      rfl

/-- A text is empty, or it begins with a character of no word, or it begins with a longest run. -/
theorem words_induction {motive : List Char → Prop} (nil : motive [])
    (gap : ∀ c rest, isWord c = false → motive rest → motive (c :: rest))
    (run : ∀ run rest, run ≠ [] → (∀ c ∈ run, isWord c) → Ends isWord rest → motive rest →
      motive (run ++ rest)) (s : List Char) : motive s := by
  induction hlength : s.length using Nat.strong_induction_on generalizing s with
  | _ length ih =>
      cases s with
      | nil => exact nil
      | cons c rest =>
          cases hc : isWord c with
          | false => exact gap c rest hc (ih rest.length (by simp [← hlength]) rest rfl)
          | true =>
              have hends := ends_dropWhile isWord (c :: rest)
              have hshorter : ((c :: rest).dropWhile isWord).length < length := by
                rw [List.dropWhile_cons_of_pos hc, ← hlength, List.length_cons, Nat.lt_succ_iff]
                exact List.length_dropWhile_le ..
              rw [← List.takeWhile_append_dropWhile (p := isWord) (l := c :: rest)]
              refine run _ _ ?_ (fun d hd => mem_takeWhile hd) hends (ih _ hshorter _ rfl)
              simp [hc]

/-! ## Runs of a text -/

theorem not_isRun_nil : ¬IsRun [] before run := by
  rintro ⟨⟨rest, hs, -⟩, hrun, -, -⟩
  exact hrun (List.append_eq_nil_iff.mp (List.append_eq_nil_iff.mp hs.symm).2).1

/-- A longest run begins with a word character. -/
theorem IsRun.not_ends (hrun : IsRun s [] run) : ¬Ends isWord s := by
  obtain ⟨⟨rest, rfl, -⟩, hne, hword, -⟩ := hrun
  cases run with
  | nil => exact absurd rfl hne
  | cons c run =>
      intro hends
      have hc := hword c List.mem_cons_self
      rw [ends_cons.mp hends] at hc
      cases hc

theorem isRun_cons (hc : isWord c = false) :
    IsRun (c :: s) before run ↔ ∃ front, before = c :: front ∧ IsRun s front run := by
  constructor
  · intro hrun
    cases before with
    | nil => exact absurd (ends_cons.mpr hc) hrun.not_ends
    | cons d front =>
        obtain ⟨⟨rest, hs, hrest⟩, hne, hword, hbefore⟩ := hrun
        obtain ⟨rfl, rfl⟩ := List.cons.inj hs
        refine ⟨front, rfl, ⟨rest, rfl, hrest⟩, hne, hword, fun d hd => hbefore d ?_⟩
        rw [List.getLast?_cons, Option.mem_def.mp hd]
        rfl
  · rintro ⟨front, rfl, ⟨rest, rfl, hrest⟩, hne, hword, hbefore⟩
    refine ⟨⟨rest, rfl, hrest⟩, hne, hword, fun d hd => ?_⟩
    rw [List.getLast?_cons, Option.mem_some_iff] at hd
    cases hlast : front.getLast? with
    | none => rwa [← hd, hlast]
    | some e =>
        rw [← hd, hlast]
        exact hbefore e hlast

theorem isRun_append (hrun : run ≠ []) (hword : ∀ c ∈ run, isWord c) (hrest : Ends isWord rest) :
    IsRun (run ++ rest) before other ↔
      before = [] ∧ other = run ∨ ∃ front, before = run ++ front ∧ IsRun rest front other := by
  constructor
  · rintro ⟨⟨tail, hs, htail⟩, hne, hother, hbefore⟩
    by_cases hempty : before = []
    · subst hempty
      have htaken := congrArg (List.takeWhile isWord) hs
      rw [List.nil_append, takeWhile_run hword hrest, takeWhile_run hother htail] at htaken
      exact .inl ⟨rfl, htaken.symm⟩
    · right
      rcases List.append_eq_append_iff.mp hs with ⟨front, rfl, rfl⟩ | ⟨inner, rfl, -⟩
      · refine ⟨front, rfl, ⟨tail, rfl, htail⟩, hne, hother, fun d hd => hbefore d ?_⟩
        rw [List.getLast?_append, Option.mem_def.mp hd]
        rfl
      · -- A front that ends within the run ends with a word character.
        obtain ⟨d, hd⟩ := Option.ne_none_iff_exists'.mp (mt List.getLast?_eq_none_iff.mp hempty)
        have hmem := hword d (List.mem_append_left inner (List.mem_of_getLast? hd))
        rw [hbefore d hd] at hmem
        cases hmem
  · rintro (⟨rfl, rfl⟩ | ⟨front, rfl, hfront⟩)
    · exact ⟨⟨rest, rfl, hrest⟩, hrun, hword, by simp⟩
    · have hne : front ≠ [] := by
        rintro rfl
        exact hfront.not_ends hrest
      obtain ⟨⟨tail, rfl, htail⟩, hother, hwords, hbefore⟩ := hfront
      refine ⟨⟨tail, List.append_assoc .. |>.symm, htail⟩, hother, hwords, fun d hd => ?_⟩
      rw [List.getLast?_append_of_ne_nil _ hne] at hd
      exact hbefore d hd

/-! ## The runs are the words -/

/-- The places behind one more front. -/
def behind (front : List Char) (places : List (List Char × List Char)) :
    List (List Char × List Char) :=
  places.map fun place => (front ++ place.1, place.2)

theorem mem_behind {front : List Char} :
    (before, run) ∈ behind front places ↔
      ∃ tail, before = front ++ tail ∧ (tail, run) ∈ places := by
  simp only [behind, List.mem_map, Prod.mk.injEq, Prod.exists]
  constructor
  · rintro ⟨tail, _, hmem, rfl, rfl⟩
    exact ⟨tail, rfl, hmem⟩
  · rintro ⟨tail, rfl, hmem⟩
    exact ⟨tail, run, hmem, rfl, rfl⟩

theorem map_snd_behind (front : List Char) (places : List (List Char × List Char)) :
    (behind front places).map Prod.snd = places.map Prod.snd := by
  simp [behind]

theorem Ordered.behind (hordered : Ordered places) (front : List Char) :
    Ordered (behind front places) := by
  refine List.Pairwise.map _ (fun first second hlt => ?_) hordered
  simpa using hlt

theorem Ordered.nodup (hordered : Ordered places) : places.Nodup := by
  refine hordered.imp ?_
  rintro place _ hlt rfl
  exact Nat.lt_irrefl _ hlt

/-- Reading the words of a text gives all its longest runs. -/
theorem runsOf_words (s : List Char) : RunsOf s (words s) := by
  induction s using words_induction with
  | nil => exact ⟨[], .nil, fun _ _ => by simpa using not_isRun_nil, rfl⟩
  | gap c rest hc ih =>
      obtain ⟨places, hordered, hplaces, hwords⟩ := ih
      refine ⟨behind [c] places, hordered.behind [c], fun before run => ?_, ?_⟩
      · simp only [mem_behind, hplaces, isRun_cons hc, List.singleton_append]
      · rw [words_cons hc, hwords, map_snd_behind]
  | run run rest hrun hword hrest ih =>
      obtain ⟨places, hordered, hplaces, hwords⟩ := ih
      refine ⟨([], run) :: behind run places, List.pairwise_cons.mpr ⟨?_, hordered.behind run⟩,
        fun before other => ?_, ?_⟩
      · rintro ⟨before, other⟩ hmem
        obtain ⟨tail, rfl, -⟩ := mem_behind.mp hmem
        have hpositive := List.length_pos_of_ne_nil hrun
        simp only [List.length_nil, List.length_append]
        omega
      · simp only [List.mem_cons, Prod.mk.injEq, mem_behind, hplaces,
          isRun_append hrun hword hrest]
      · rw [words_run hrun hword hrest, hwords, List.map_cons, map_snd_behind]

/-- A text has one list of runs. -/
theorem RunsOf.unique {runs others : List (List Char)} (hruns : RunsOf s runs)
    (hothers : RunsOf s others) : runs = others := by
  obtain ⟨places, hordered, hplaces, rfl⟩ := hruns
  obtain ⟨same, hsame, hmem, rfl⟩ := hothers
  have hperm : places.Perm same :=
    (List.perm_ext_iff_of_nodup hordered.nodup hsame.nodup).mpr
      fun place => (hplaces place.1 place.2).trans (hmem place.1 place.2).symm
  rw [List.Perm.eq_of_pairwise (fun _ _ _ _ hlt hgt => absurd hgt (Nat.lt_asymm hlt)) hordered
    hsame hperm]

theorem runsOf_iff {runs : List (List Char)} : RunsOf s runs ↔ runs = words s :=
  ⟨fun hruns => hruns.unique (runsOf_words s), fun hruns => hruns ▸ runsOf_words s⟩

end ScriptAssembly.Scan
