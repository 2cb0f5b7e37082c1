import ScriptAssembly.Proofs.Diagnostic.Mark

/-!
# Places on a line

A line names its place at its first mark behind a character that is no blank.  Where it has no such
mark, a mark right behind its leading blanks is taken, and then the file has no name.  Lines with no
mark behind their first character name no place.
-/

namespace ScriptAssembly.Diagnostic

open Text

variable {line before passed text rest : List Char} {lineDigits columnDigits : List Char}
  {headline : Headline} {locus : Locus} {found : Diagnostic} {index : Nat}

/-- The number of blanks that the line begins with. -/
def indent (line : List Char) : Nat := (line.takeWhile isBlank).length

/-- The line names its place with the mark at the index. -/
inductive PlaceAt (line : List Char) (index : Nat) : Prop
  | behindName (hmarked : MarkedAt line index) (hindent : indent line < index)
      (hfirst : ∀ other, indent line < other → MarkedAt line other → index ≤ other)
  | behindBlanks (hmarked : MarkedAt line index) (hpositive : 1 ≤ index)
      (hindent : index = indent line) (hnone : ∀ other, indent line < other → ¬MarkedAt line other)

/-- The first mark behind a name is read together with the name. -/
theorem locateFrom?_append (before : List Char) (hpassed : passed ≠ []) (hline : '\n' ∉ passed)
    (hfirst : ∀ front back, passed = front ++ back → front ≠ [] → back ≠ [] →
      locusAt? (back ++ rest) = none)
    (hlocus : locusAt? rest = some locus)
    (hfound : atPlace? (before.reverse ++ passed) locus = some found) :
    locateFrom? before (passed ++ rest) = some found := by
  induction passed generalizing before with
  | nil => exact absurd rfl hpassed
  | cons c passed ih =>
      have hc : c ≠ '\n' := by
        rintro rfl
        exact hline List.mem_cons_self
      rw [List.cons_append, locateFrom?, if_neg hc]
      by_cases hlast : passed = []
      · subst hlast
        have hname : (c :: before).reverse = before.reverse ++ [c] := List.reverse_cons
        simp only [List.nil_append, hlocus, Option.bind_some, hname, hfound]
      · have hnone := hfirst [c] passed rfl (by simp) hlast
        simp only [hnone, Option.bind_none]
        refine ih (c :: before) hlast (fun hmem => hline (List.mem_cons_of_mem c hmem)) ?_ ?_
        · intro front back hsplit hfront hback
          exact hfirst (c :: front) back (by rw [hsplit, List.cons_append]) (by simp) hback
        · rw [List.reverse_cons, List.append_assoc]
          exact hfound

/-- Nothing is located where no mark follows the first character. -/
theorem locateFrom?_eq_none (before : List Char) (hnone : ∀ index ≥ 1, ¬MarkedAt line index) :
    locateFrom? before line = none := by
  induction line generalizing before with
  | nil => rfl
  | cons c line ih =>
      have hlocus : locusAt? line = none := by
        rw [Option.eq_none_iff_forall_not_mem]
        intro locus hlocus
        exact hnone 1 (by omega) (markedAt_iff.mpr ⟨locus, hlocus⟩)
      have hrest : locateFrom? (c :: before) line = none := by
        refine ih (c :: before) fun index hindex hmarked => hnone (index + 1) (by omega) ?_
        obtain ⟨_, _, headline, text, hmarks, hbegins⟩ := hmarked
        exact ⟨_, _, headline, text, hmarks, hbegins⟩
      rw [locateFrom?]
      simp only [hlocus, hrest, Option.bind_none, ite_self]

/-! ## The place of a line -/

theorem line_eq (line : List Char) : line = line.takeWhile isBlank ++ trimStart line :=
  List.takeWhile_append_dropWhile.symm

theorem indent_blank_append {gap : List Char} (hgap : Blank gap) (hends : Ends isBlank text) :
    indent (gap ++ text) = gap.length := by
  rw [indent, takeWhile_run hgap hends]

/-- The marks of a line are those of the text behind its leading blanks. -/
theorem markedAt_iff_trimStart :
    MarkedAt line index ↔ indent line ≤ index ∧ MarkedAt (trimStart line) (index - indent line) := by
  have hfree : '(' ∉ line.takeWhile isBlank :=
    not_mem_of_run (fun c hc => mem_takeWhile hc) (by decide : isBlank '(' = false)
  conv_lhs => rw [line_eq line]
  exact markedAt_append hfree

/-- A line has a place exactly if it has a mark behind its first character. -/
theorem exists_placeAt_iff : (∃ index, PlaceAt line index) ↔ ∃ index ≥ 1, MarkedAt line index := by
  constructor
  · rintro ⟨index, ⟨hmarked, hindent, -⟩ | ⟨hmarked, hpositive, -, -⟩⟩
    · exact ⟨index, Nat.one_le_of_lt hindent, hmarked⟩
    · exact ⟨index, hpositive, hmarked⟩
  · rintro ⟨index, hpositive, hmarked⟩
    by_cases hbehind : ∃ other, indent line < other ∧ MarkedAt line other
    · obtain ⟨hindent, hfound⟩ := Nat.find_spec hbehind
      exact ⟨Nat.find hbehind, .behindName hfound hindent fun other hother hmark =>
        Nat.find_min' hbehind ⟨hother, hmark⟩⟩
    · have hnone : ∀ other, indent line < other → ¬MarkedAt line other :=
        fun other hother hmark => hbehind ⟨other, hother, hmark⟩
      have hindent : index = indent line :=
        Nat.le_antisymm (Nat.not_lt.mp fun hlt => hnone index hlt hmarked)
          (markedAt_iff_trimStart.mp hmarked).1
      exact ⟨index, .behindBlanks hmarked hpositive hindent hnone⟩

theorem PlaceAt.markedAt (hplace : PlaceAt line index) : MarkedAt line index := by
  cases hplace with
  | behindName hmarked | behindBlanks hmarked => exact hmarked

/-- A mark behind a name without marks is the place of the line. -/
theorem placeAt_of_not_markedAt {name : List Char} (hname : name ≠ []) (hends : Ends isBlank name)
    (hmarks : Marks lineDigits columnDigits headline text)
    (hnone : ∀ index ≥ 1, ¬MarkedAt name index) (rest : List Char) :
    PlaceAt (name ++ (text ++ rest)) name.length := by
  have hindent : indent (name ++ (text ++ rest)) = 0 :=
    indent_blank_append blank_nil (ends_append hname hends)
  refine .behindName ⟨_, _, headline, text, hmarks, rest, ?_⟩ ?_ fun other hother hmarked => ?_
  · rw [List.drop_left]
  · rw [hindent]
    exact List.length_pos_iff.mpr hname
  · by_contra hbefore
    obtain ⟨_, _, headline, inner, hinner, hbegins⟩ := hmarked
    obtain ⟨tail, rfl, -⟩ := hmarks.exists_cons
    rw [Nat.not_le] at hbefore
    rw [List.drop_append_of_le_length (Nat.le_of_lt hbefore)] at hbegins
    -- It ends before the parenthesis of the mark behind the name, so it is a mark of the name.
    have hwithin := hinner.prefix_of_open (by simpa using hbefore) hbegins
    exact hnone other (by omega) ⟨_, _, headline, inner, hinner, hwithin⟩

theorem messageOf?_of_not_mem (hrest : '\n' ∉ rest) : messageOf? rest = some (trim rest) := by
  rw [messageOf?, if_neg fun hmem => hrest (mem_of_mem_trim hmem)]

theorem located?_eq_none (hnone : ∀ index ≥ 1, ¬MarkedAt line index) : located? line = none := by
  have hbody : locateFrom? [] (trimStart line) = none := by
    refine locateFrom?_eq_none [] fun index hpositive hmarked => ?_
    have hmark := hmarked.behind (line.takeWhile isBlank)
    rw [← line_eq line] at hmark
    exact hnone _ (by omega) hmark
  unfold located?
  dsimp only
  rw [← trimStart, hbody]
  cases hlast : (line.takeWhile isBlank).getLast? with
  | none => rfl
  | some last =>
      have hlocus : locusAt? (trimStart line) = none := by
        rw [Option.eq_none_iff_forall_not_mem]
        intro locus hlocus
        have hpositive := List.length_pos_of_mem (List.mem_of_getLast? hlast)
        refine hnone (indent line) hpositive (markedAt_iff_trimStart.mpr ⟨Nat.le_refl _, ?_⟩)
        rw [Nat.sub_self]
        exact markedAt_iff.mpr ⟨locus, hlocus⟩
      simp [hlocus]

theorem atPlace?_eq {file : List Char} (hrest : '\n' ∉ rest) :
    atPlace? file ⟨lineDigits, columnDigits, headline, rest⟩ = some {
      severity := headline.severity
      file := some ⟨.ofList (trim file)⟩
      line := number? lineDigits
      column := number? columnDigits
      code := some (.ofList headline.code)
      message := .ofList (trim rest) } := by
  rw [atPlace?, messageOf?_of_not_mem hrest, Option.map_some]

/-- Blanks before the name of a file are no part of it. -/
theorem atPlace?_blank_append {gap file : List Char} (hgap : Blank gap) (locus : Locus) :
    atPlace? (gap ++ file) locus = atPlace? file locus := by
  rw [atPlace?, atPlace?, trim_blank_append hgap]

section Located

variable {gap name : List Char} (hgap : Blank gap)
  (hmarks : Marks lineDigits columnDigits headline text) (hrest : '\n' ∉ rest)

include hgap hmarks

include hrest in
theorem located?_behindName (hname : name ≠ []) (hends : Ends isBlank name) (hline : '\n' ∉ name)
    (hfirst : ∀ front back, name = front ++ back → front ≠ [] → back ≠ [] →
      locusAt? (back ++ (text ++ rest)) = none) :
    located? (gap ++ (name ++ (text ++ rest))) =
      atPlace? (gap ++ name) ⟨lineDigits, columnDigits, headline, rest⟩ := by
  have hlocus : locusAt? (text ++ rest) = some ⟨lineDigits, columnDigits, headline, rest⟩ :=
    locusAt?_eq_some_iff.mpr ⟨text, hmarks, rfl⟩
  have hbody : trimStart (gap ++ (name ++ (text ++ rest))) = name ++ (text ++ rest) := by
    rw [trimStart_blank_append hgap, trimStart_of_ends (ends_append hname hends)]
  rw [atPlace?_blank_append hgap, atPlace?_eq hrest]
  unfold located?
  dsimp only
  rw [← trimStart, hbody,
    locateFrom?_append [] hname hline hfirst hlocus (atPlace?_eq hrest)]
  rfl

theorem located?_behindBlanks (hwritten : gap ≠ []) (hline : '\n' ∉ gap)
    (hnone : ∀ index ≥ 1, ¬MarkedAt (text ++ rest) index) :
    located? (gap ++ (text ++ rest)) =
      atPlace? gap ⟨lineDigits, columnDigits, headline, rest⟩ := by
  have hlocus : locusAt? (text ++ rest) = some ⟨lineDigits, columnDigits, headline, rest⟩ :=
    locusAt?_eq_some_iff.mpr ⟨text, hmarks, rfl⟩
  have hends : Ends isBlank (text ++ rest) := hmarks.ends_isBlank
  have hindent : (gap ++ (text ++ rest)).takeWhile isBlank = gap := takeWhile_run hgap hends
  have hbody : trimStart (gap ++ (text ++ rest)) = text ++ rest := dropWhile_run hgap hends
  have hlast : gap.getLast? = some (gap.getLast hwritten) := List.getLast?_eq_some_getLast hwritten
  have hbroken : gap.getLast hwritten ≠ '\n' := fun hbreak =>
    hline (hbreak ▸ List.getLast_mem hwritten)
  have hfile : atPlace? gap ⟨lineDigits, columnDigits, headline, rest⟩ =
      atPlace? [] ⟨lineDigits, columnDigits, headline, rest⟩ := by
    rw [← List.append_nil gap, atPlace?_blank_append hgap]
  unfold located?
  dsimp only
  rw [← trimStart, hbody, hindent, locateFrom?_eq_none [] hnone, hlast]
  simp only [if_neg hbroken, hlocus, Option.bind_some, hfile]

end Located

/-- The mark at the place of a line is read, with all that stands before it as the file name. -/
theorem located?_of_placeAt (hbefore : '\n' ∉ before) (hrest : '\n' ∉ rest)
    (hplace : PlaceAt (before ++ (text ++ rest)) before.length)
    (hmarks : Marks lineDigits columnDigits headline text) :
    located? (before ++ (text ++ rest)) =
      atPlace? before ⟨lineDigits, columnDigits, headline, rest⟩ := by
  obtain ⟨gap, hgap, hsplit⟩ := exists_blank_trimStart before
  have hends := ends_trimStart before
  generalize trimStart before = name at hsplit hends
  subst hsplit
  rw [List.mem_append, not_or] at hbefore
  by_cases hname : name = []
  · subst hname
    rw [List.append_nil] at hplace ⊢
    have hindent := indent_blank_append hgap (hmarks.ends_isBlank (s := rest))
    rcases hplace with ⟨-, hbehind, -⟩ | ⟨-, hpositive, -, hnone⟩
    · omega
    · refine located?_behindBlanks hgap hmarks (List.length_pos_iff.mp hpositive) hbefore.1 ?_
      exact fun index hindex hmarked => hnone _ (by omega) (hmarked.behind gap)
  · have hlength := List.length_pos_iff.mpr hname
    rw [List.append_assoc, List.length_append] at hplace
    rw [List.append_assoc]
    have hbody : Ends isBlank (name ++ (text ++ rest)) := ends_append hname hends
    have hindent := indent_blank_append hgap hbody
    rcases hplace with ⟨-, -, hfirst⟩ | ⟨-, -, hbehind, -⟩
    · refine located?_behindName hgap hmarks hrest hname hends hbefore.2 ?_
      intro front back hparts hfront hback
      rw [Option.eq_none_iff_forall_not_mem]
      intro other hother
      have hmarked : MarkedAt (back ++ (text ++ rest)) 0 := markedAt_iff.mpr ⟨other, hother⟩
      have hfrontLength := List.length_pos_iff.mpr hfront
      have hbackLength := List.length_pos_iff.mpr hback
      rw [hparts, List.append_assoc] at hfirst hindent
      have hearlier := hfirst _ (by omega) ((hmarked.behind front).behind gap)
      rw [List.length_append] at hearlier
      omega
    · omega

end ScriptAssembly.Diagnostic
