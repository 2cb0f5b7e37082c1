import ScriptAssembly.Proofs.Text.Run

/-!
# The first place where a text reads

A search from the left finds what is read behind the shortest front behind which anything is read,
`leftmost?_eq_some_iff`, and it fails exactly if nothing is read anywhere.  Characters in which no
reading begins do not matter to it where they stand in front of a text, nor where they stand behind
one and a reading does not look at them, `leftmost?_surrounded`.
-/

namespace ScriptAssembly.Text

variable {α : Type} {read : List Char → Option α} {s front back before : List Char} {found : α}
  {word : String} {c : Char}

/-- What follows `before` in the text is read as `found`. -/
def ReadsBehind (read : List Char → Option α) (s before : List Char) (found : α) : Prop :=
  ∃ rest, s = before ++ rest ∧ read rest = some found

theorem readsBehind_nil : ReadsBehind read s [] found ↔ read s = some found := by
  simp [ReadsBehind]

theorem readsBehind_of_nil :
    ReadsBehind read [] before found ↔ before = [] ∧ read [] = some found := by
  simp [ReadsBehind, and_assoc]

theorem readsBehind_cons (hnone : read (c :: s) = none) :
    ReadsBehind read (c :: s) before found ↔
      ∃ tail, before = c :: tail ∧ ReadsBehind read s tail found := by
  cases before with
  | nil => simp [readsBehind_nil, hnone]
  | cons d tail =>
      simp only [ReadsBehind, List.cons_append, List.cons.injEq, and_assoc, exists_and_left,
        exists_eq_left']
      exact and_congr_left fun _ => eq_comm

/-- A search finds what is read behind the shortest front behind which anything is read. -/
theorem leftmost?_eq_some_iff :
    leftmost? read s = some found ↔ ∃ before, ReadsBehind read s before found ∧
      ∀ other result, ReadsBehind read s other result → before.length ≤ other.length := by
  induction s with
  | nil => simp [leftmost?, readsBehind_of_nil, and_assoc]
  | cons c s ih =>
      rw [leftmost?]
      cases hhere : read (c :: s) with
      | some here =>
          constructor
          · rintro ⟨⟩
            exact ⟨[], readsBehind_nil.mpr hhere, fun other _ _ => Nat.zero_le other.length⟩
          · rintro ⟨before, hbefore, hfirst⟩
            have hlength := hfirst [] here (readsBehind_nil.mpr hhere)
            rw [List.eq_nil_of_length_eq_zero (Nat.le_zero.mp hlength), readsBehind_nil] at hbefore
            exact hhere.symm.trans hbefore
      | none =>
          simp only [readsBehind_cons hhere, ih]
          constructor
          · rintro ⟨before, hbefore, hfirst⟩
            refine ⟨c :: before, ⟨before, rfl, hbefore⟩, ?_⟩
            rintro _ result ⟨tail, rfl, htail⟩
            exact Nat.succ_le_succ (hfirst tail result htail)
          · rintro ⟨_, ⟨before, rfl, hbefore⟩, hfirst⟩
            refine ⟨before, hbefore, fun tail result htail => ?_⟩
            exact Nat.le_of_succ_le_succ (hfirst (c :: tail) result ⟨tail, rfl, htail⟩)

theorem leftmost?_eq_none_iff :
    leftmost? read s = none ↔ ∀ before found, ¬ReadsBehind read s before found := by
  induction s with
  | nil =>
      rw [leftmost?, Option.eq_none_iff_forall_ne_some]
      simp only [readsBehind_of_nil]
      exact ⟨fun hnone _ found ⟨_, hread⟩ => hnone found hread,
        fun hnone found hread => hnone [] found ⟨rfl, hread⟩⟩
  | cons c s ih =>
      rw [leftmost?]
      cases hhere : read (c :: s) with
      | some here => simpa using ⟨[], here, readsBehind_nil.mpr hhere⟩
      | none =>
          simp only [readsBehind_cons hhere, ih]
          exact ⟨fun hnone _ found ⟨tail, _, htail⟩ => hnone tail found htail,
            fun hnone before found hbefore => hnone _ found ⟨before, rfl, hbefore⟩⟩

theorem contains_iff : contains word s ↔ word.toList <:+: s := by
  rw [contains, Option.isSome_iff_ne_none, ne_eq, leftmost?_eq_none_iff]
  simp only [ReadsBehind, after?_eq_some_iff, not_forall, not_not, List.IsInfix]
  constructor
  · rintro ⟨before, rest, _, rfl, rfl⟩
    exact ⟨before, rest, List.append_assoc ..⟩
  · rintro ⟨before, rest, rfl⟩
    exact ⟨before, rest, _, List.append_assoc .., rfl⟩

theorem startsWith_iff : startsWith word s ↔ word.toList <+: s := by
  rw [startsWith, Option.isSome_iff_exists]
  exact exists_congr fun _ => after?_eq_some_iff.trans eq_comm

/-! ## Texts around a text -/

theorem leftmost?_append (hfront : ∀ c ∈ front, ∀ rest, read (c :: rest) = none) :
    leftmost? read (front ++ s) = leftmost? read s := by
  induction front with
  | nil => rfl
  | cons c front ih =>
      rw [List.cons_append, leftmost?, hfront c List.mem_cons_self]
      exact ih fun d hd => hfront d (List.mem_cons_of_mem c hd)

/-- A search finds the same in a text and in one with more behind it if each reading does, up to a
change of what is found. -/
theorem leftmost?_append_back {change : α → α} (hnil : read [] = none)
    (hback : ∀ c ∈ back, ∀ rest, read (c :: rest) = none)
    (hread : ∀ rest, read (rest ++ back) = (read rest).map change) :
    leftmost? read (s ++ back) = (leftmost? read s).map change := by
  induction s with
  | nil =>
      have hempty := leftmost?_append (s := []) hback
      rw [List.append_nil] at hempty
      rw [List.nil_append, hempty, leftmost?, hnil, Option.map_none]
  | cons c s ih =>
      have hhere := hread (c :: s)
      rw [List.cons_append] at hhere ⊢
      rw [leftmost?, leftmost?, hhere, ih]
      cases read (c :: s) <;> rfl

theorem takeWhile_append_of_ends {p : Char → Bool} (hback : Ends p back) :
    (s ++ back).takeWhile p = s.takeWhile p := by
  induction s with
  | nil => exact takeWhile_run (fun _ hc => absurd hc List.not_mem_nil) hback
  | cons c s ih => simp only [List.cons_append, List.takeWhile_cons, ih]

theorem isPrefixOf?_append {letters : List Char} (hapart : ∀ c ∈ letters, c ∉ back) :
    letters.isPrefixOf? (s ++ back) = (letters.isPrefixOf? s).map (· ++ back) := by
  induction letters generalizing s with
  | nil => simp [List.isPrefixOf?]
  | cons c letters ih =>
      have hc : c ∉ back := hapart c List.mem_cons_self
      have hletters : ∀ d ∈ letters, d ∉ back := fun d hd => hapart d (List.mem_cons_of_mem c hd)
      cases s with
      | nil =>
          cases back with
          | nil => rfl
          | cons d back =>
              have hne : c ≠ d := List.ne_of_not_mem_cons hc
              simp [List.isPrefixOf?, hne]
      | cons d s =>
          by_cases hd : c = d
          · simp [List.isPrefixOf?, hd, ih hletters]
          · simp [List.isPrefixOf?, hd]

/-! ## Words without blanks -/

/-- The word has a character and no blank. -/
structure Solid (word : String) : Prop where
  /-- There is a character. -/
  ne_nil : word.toList ≠ []
  /-- No character is a blank. -/
  not_isBlank : ∀ c ∈ word.toList, isBlank c = false

instance (word : String) : Decidable (Solid word) :=
  decidable_of_iff (word.toList ≠ [] ∧ word.toList.all (fun c => !isBlank c)) <| by
    simp only [List.all_eq_true, Bool.not_eq_true']
    exact ⟨fun h => ⟨h.1, h.2⟩, fun h => ⟨h.ne_nil, h.not_isBlank⟩⟩

theorem after?_nil (hword : Solid word) : after? word [] = none := by
  refine Option.eq_none_iff_forall_ne_some.mpr fun rest hrest => ?_
  rw [after?_eq_some_iff] at hrest
  exact hword.ne_nil (List.append_eq_nil_iff.mp hrest.symm).1

theorem after?_of_isBlank (hword : Solid word) (hc : isBlank c) : after? word (c :: s) = none := by
  refine Option.eq_none_iff_forall_ne_some.mpr fun rest hrest => ?_
  rw [after?_eq_some_iff] at hrest
  cases hletters : word.toList with
  | nil => exact hword.ne_nil hletters
  | cons d letters =>
      rw [hletters, List.cons_append, List.cons.injEq] at hrest
      have hd := hword.not_isBlank d (hletters ▸ List.mem_cons_self)
      rw [← hrest.1, hc] at hd
      cases hd

/-- Whether a word without blanks begins a text does not depend on blanks behind the text. -/
theorem after?_append_blank (hword : Solid word) (hback : Blank back) :
    after? word (s ++ back) = (after? word s).map (· ++ back) :=
  isPrefixOf?_append fun c hc => not_mem_of_run hback (hword.not_isBlank c hc)

theorem Blank.ends_isWord (hback : Blank back) : Ends isWord back :=
  fun c hc => hback.isWord_eq_false c (List.mem_of_mem_head? hc)

theorem startsWith_append_blank (hword : Solid word) (hback : Blank back) :
    startsWith word (s ++ back) = startsWith word s := by
  rw [startsWith, after?_append_blank hword hback, Option.isSome_map, startsWith]

theorem startsWith_trimStart_surrounded (hword : Solid word) (hfront : Blank front)
    (hback : Blank back) :
    startsWith word (trimStart (front ++ (s ++ back))) = startsWith word (trimStart s) := by
  rw [trimStart_blank_append hfront, trimStart_append_blank hback]
  split
  · next hempty => rw [hempty]
  · exact startsWith_append_blank hword hback

theorem leftmost?_surrounded {change : α → α} (hnil : read [] = none)
    (hblank : ∀ c, isBlank c → ∀ rest, read (c :: rest) = none)
    (hread : ∀ rest, read (rest ++ back) = (read rest).map change) (hfront : Blank front)
    (hback : Blank back) :
    leftmost? read (front ++ (s ++ back)) = (leftmost? read s).map change := by
  rw [leftmost?_append fun c hc => hblank c (hfront c hc),
    leftmost?_append_back hnil (fun c hc => hblank c (hback c hc)) hread]

theorem leftmost?_surrounded_same (hnil : read [] = none)
    (hblank : ∀ c, isBlank c → ∀ rest, read (c :: rest) = none)
    (hread : ∀ rest, read (rest ++ back) = read rest) (hfront : Blank front) (hback : Blank back) :
    leftmost? read (front ++ (s ++ back)) = leftmost? read s := by
  have hsame : ∀ rest, read (rest ++ back) = (read rest).map id := fun rest => by
    rw [hread, Option.map_id_apply]
  rw [leftmost?_surrounded hnil hblank hsame hfront hback, Option.map_id_apply]

theorem contains_surrounded (hword : Solid word) (hfront : Blank front) (hback : Blank back) :
    contains word (front ++ (s ++ back)) = contains word s := by
  rw [contains, leftmost?_surrounded (after?_nil hword) (fun _ hc _ => after?_of_isBlank hword hc)
    (fun _ => after?_append_blank hword hback) hfront hback, Option.isSome_map, contains]

end ScriptAssembly.Text
