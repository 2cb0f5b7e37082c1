import ScriptAssembly.Diagnostic.Reader
import ScriptAssembly.Proofs.Text.Run

/-!
# Marks of diagnostics

A headline is a severity, a code and a colon; a mark is a position in parentheses with a headline
behind it.  Both are relations between what is said and how it is spelled, with blanks wherever the
compilers put them.  The readers accept a text exactly if it begins with a spelling, and what they
read is what the spelling says.
-/

namespace ScriptAssembly.Diagnostic

open Text

variable {s rest digits code line column text : List Char} {headline : Headline} {locus : Locus}

/-- One or more digits. -/
structure IsNumber (digits : List Char) : Prop where
  /-- There is a digit. -/
  ne_nil : digits ≠ []
  /-- There are only digits. -/
  digits : ∀ c ∈ digits, isDigit c

/-- One or more ASCII letters and one or more digits. -/
inductive IsCode : List Char → Prop
  | intro {letters digits} (hwritten : letters ≠ []) (hletters : ∀ c ∈ letters, c.isAlpha)
      (hdigits : IsNumber digits) : IsCode (letters ++ digits)

/-- The spellings of a headline. -/
inductive Headline.Spells : Headline → List Char → Prop
  | intro {severity code gap last} (hgap : gap ≠ []) (hblank : Blank gap) (hcode : IsCode code)
      (hlast : Blank last) :
      Spells ⟨severity, code⟩ (severity.text.toList ++ (gap ++ (code ++ (last ++ [':']))))

theorem Headline.Spells.ne_nil (hspells : headline.Spells text) : text ≠ [] := by
  obtain ⟨hwritten, -, -, -⟩ := hspells
  simp [hwritten]

theorem Headline.Spells.isCode (hspells : headline.Spells text) : IsCode headline.code := by
  obtain ⟨-, -, hcode, -⟩ := hspells
  exact hcode

/-- The spellings of a mark, with the digits of its line and column and its headline. -/
inductive Marks : List Char → List Char → Headline → List Char → Prop
  | intro {line column headline gap lead text} (hline : IsNumber line) (hcolumn : IsNumber column)
      (hgap : Blank gap) (hlead : Blank lead) (hheadline : headline.Spells text) :
      Marks line column headline
        ('(' :: (line ++ ',' :: (column ++ ')' :: (gap ++ ':' :: (lead ++ text)))))

theorem Marks.isCode (hmarks : Marks line column headline text) : IsCode headline.code := by
  obtain ⟨-, -, -, -, hspells⟩ := hmarks
  exact hspells.isCode

/-- A mark occurs in the text with its parenthesis at the index. -/
def MarkedAt (s : List Char) (index : Nat) : Prop :=
  ∃ line column headline text, Marks line column headline text ∧ text <+: s.drop index

theorem digitsAt?_eq_some_iff :
    digitsAt? s = some (digits, rest) ↔
      IsNumber digits ∧ Ends isDigit rest ∧ s = digits ++ rest := by
  unfold digitsAt?
  dsimp only
  constructor
  · intro hread
    split at hread
    · cases hread
    · next hsome =>
      cases hread
      refine ⟨⟨hsome, fun c hc => mem_takeWhile hc⟩, ends_dropWhile isDigit s, ?_⟩
      exact List.takeWhile_append_dropWhile.symm
  · rintro ⟨hdigits, hends, rfl⟩
    rw [takeWhile_run hdigits.digits hends, dropWhile_run hdigits.digits hends,
      if_neg hdigits.ne_nil]

theorem codeAt?_eq_some_iff :
    codeAt? s = some (code, rest) ↔ IsCode code ∧ Ends isDigit rest ∧ s = code ++ rest := by
  unfold codeAt?
  dsimp only
  constructor
  · intro hread
    split at hread
    · cases hread
    · next hsome =>
      rw [not_or] at hsome
      cases hread
      refine ⟨.intro hsome.1 (fun c hc => mem_takeWhile hc) ⟨hsome.2, fun c hc => mem_takeWhile hc⟩,
        ends_dropWhile isDigit _, ?_⟩
      rw [List.append_assoc, List.takeWhile_append_dropWhile, List.takeWhile_append_dropWhile]
  · rintro ⟨⟨hwritten, hletters, hdigits⟩, hends, rfl⟩
    rename_i letters digits
    have hstop : Ends Char.isAlpha (digits ++ rest) := by
      refine ends_append hdigits.ne_nil fun c hc => ?_
      exact isAlpha_eq_false_of_isDigit (hdigits.digits c (List.mem_of_mem_head? hc))
    rw [List.append_assoc, takeWhile_run hletters hstop, dropWhile_run hletters hstop,
      takeWhile_run hdigits.digits hends, dropWhile_run hdigits.digits hends,
      if_neg (by simp [hwritten, hdigits.ne_nil])]

theorem colonAt?_eq_some_iff :
    colonAt? s = some rest ↔ ∃ gap, Blank gap ∧ s = gap ++ ':' :: rest := by
  have hcolon : ":".toList = [':'] := by decide
  rw [colonAt?, after?_eq_some_iff, hcolon]
  constructor
  · intro hrest
    obtain ⟨gap, hgap, hs⟩ := exists_blank_trimStart s
    exact ⟨gap, hgap, hs.trans (congrArg (gap ++ ·) hrest)⟩
  · rintro ⟨gap, hgap, rfl⟩
    rw [trimStart_blank_append hgap]
    exact trimStart_of_ends (ends_cons.mpr (by decide))

theorem severityAt?_eq_some_iff {severity : Severity} :
    severityAt? s = some (severity, rest) ↔ s = severity.text.toList ++ rest := by
  have herror : "error".toList = ['e', 'r', 'r', 'o', 'r'] := by decide
  have hwarning : "warning".toList = ['w', 'a', 'r', 'n', 'i', 'n', 'g'] := by decide
  unfold severityAt?
  cases hread : after? "error" s with
  | some behind =>
      rw [after?_eq_some_iff] at hread
      subst hread
      cases severity with
      | error => simp [Severity.text]
      | warning => simp [Severity.text, herror, hwarning]
  | none =>
      have hnone : ∀ behind, s ≠ "error".toList ++ behind := fun behind hs => by
        rw [after?_eq_some_iff.mpr hs] at hread
        cases hread
      cases severity with
      | error => simpa [Severity.text] using hnone rest
      | warning => simp [Severity.text, after?_eq_some_iff]

theorem ends_severity (severity : Severity) :
    severity.text.toList ≠ [] ∧ Ends isBlank severity.text.toList := by
  have herror : "error".toList = ['e', 'r', 'r', 'o', 'r'] := by decide
  have hwarning : "warning".toList = ['w', 'a', 'r', 'n', 'i', 'n', 'g'] := by decide
  cases severity with
  | error =>
      rw [Severity.text, herror]
      exact ⟨by simp, ends_cons.mpr (by decide)⟩
  | warning =>
      rw [Severity.text, hwarning]
      exact ⟨by simp, ends_cons.mpr (by decide)⟩

theorem IsCode.ends_isBlank (hcode : IsCode code) : Ends isBlank (code ++ s) := by
  obtain ⟨hwritten, hletters, -⟩ := hcode
  rw [List.append_assoc]
  refine ends_append hwritten fun c hc => ?_
  exact isBlank_eq_false_of_isAlpha (hletters c (List.mem_of_mem_head? hc))

theorem ends_isDigit_blank {gap : List Char} (hgap : Blank gap) :
    Ends isDigit (gap ++ ':' :: rest) := by
  cases gap with
  | nil => exact ends_cons.mpr (by decide)
  | cons c gap =>
      refine ends_cons.mpr (Bool.eq_false_iff.mpr fun hdigit => ?_)
      have hblank := hgap c List.mem_cons_self
      rw [isBlank_eq_false_of_isDigit hdigit] at hblank
      cases hblank

theorem headlineAt?_eq_some_iff :
    headlineAt? s = some (headline, rest) ↔ ∃ text, headline.Spells text ∧ s = text ++ rest := by
  simp only [headlineAt?, bind, Option.bind_eq_some_iff, Prod.exists]
  constructor
  · rintro ⟨severity, behind, hseverity, hread⟩
    split at hread
    · next hspaced =>
      simp only [Option.bind_eq_some_iff, Prod.exists] at hread
      obtain ⟨code, last, hcode, message, hcolon, hread⟩ := hread
      cases hread
      rw [severityAt?_eq_some_iff] at hseverity
      obtain ⟨hcode, -, hstart⟩ := codeAt?_eq_some_iff.mp hcode
      obtain ⟨blanks, hblanks, hlast⟩ := colonAt?_eq_some_iff.mp hcolon
      obtain ⟨gap, hgap, hbehind⟩ := exists_blank_trimStart behind
      have hwritten : gap ≠ [] := by
        rintro rfl
        have hends := ends_trimStart behind
        rw [← List.nil_append (trimStart behind), ← hbehind] at hends
        cases behind with
        | nil => cases hspaced
        | cons c behind =>
            have hc : isBlank c := hspaced
            rw [ends_cons.mp hends] at hc
            cases hc
      refine ⟨_, .intro hwritten hgap hcode hblanks, ?_⟩
      simp only [hseverity, List.append_assoc, List.cons_append, List.nil_append]
      rw [hbehind, hstart, hlast]
    · cases hread
  · rintro ⟨text, ⟨hwritten, hblank, hcode, hlast⟩, rfl⟩
    rename_i severity code gap last
    refine ⟨severity, gap ++ (code ++ (last ++ ':' :: rest)), ?_, ?_⟩
    · rw [severityAt?_eq_some_iff]
      simp
    · have hspaced : (gap ++ (code ++ (last ++ ':' :: rest))).head?.any isBlank := by
        cases gap with
        | nil => exact absurd rfl hwritten
        | cons c gap => exact hblank c List.mem_cons_self
      have hread : codeAt? (trimStart (gap ++ (code ++ (last ++ ':' :: rest)))) =
          some (code, last ++ ':' :: rest) := by
        rw [trimStart_blank_append hblank, trimStart_of_ends hcode.ends_isBlank]
        exact codeAt?_eq_some_iff.mpr ⟨hcode, ends_isDigit_blank hlast, rfl⟩
      have hcolon : colonAt? (last ++ ':' :: rest) = some rest :=
        colonAt?_eq_some_iff.mpr ⟨last, hlast, rfl⟩
      rw [if_pos hspaced, hread, Option.bind_some, hcolon, Option.bind_some]

theorem Headline.Spells.ends_isBlank (hspells : headline.Spells text) :
    Ends isBlank (text ++ s) := by
  obtain ⟨hwritten, hblank, hcode, hlast⟩ := hspells
  rename_i severity code gap last
  rw [List.append_assoc]
  exact ends_append (ends_severity severity).1 (ends_severity severity).2

/-- No colon follows where a code does. -/
theorem colonAt?_code {gap : List Char} (hgap : Blank gap) (hcode : IsCode code) :
    colonAt? (gap ++ (code ++ rest)) = none := by
  rw [Option.eq_none_iff_forall_not_mem]
  intro behind hbehind
  obtain ⟨blanks, hblanks, hcolon⟩ := colonAt?_eq_some_iff.mp hbehind
  have htrim := congrArg trimStart hcolon
  rw [trimStart_blank_append hgap, trimStart_of_ends hcode.ends_isBlank,
    trimStart_blank_append hblanks, trimStart_of_ends (ends_cons.mpr (by decide))] at htrim
  obtain ⟨hwritten, hletters, -⟩ := hcode
  rename_i letters digits
  cases letters with
  | nil => exact hwritten rfl
  | cons c letters =>
      have hc := hletters c List.mem_cons_self
      injection htrim with hhead
      rw [hhead] at hc
      revert hc
      decide

/-- The severity of a headline is no name of a tool, for a code and no colon follows it. -/
theorem behindTool?_of_spells (hspells : headline.Spells text) :
    behindTool? (text ++ rest) = none := by
  obtain ⟨hwritten, hblank, hcode, -⟩ := hspells
  rename_i severity code gap last
  have hname : ∀ c ∈ severity.text.toList, decide (c ≠ ':' ∧ isBlank c = false) = true := by
    cases severity <;> exact List.all_eq_true.mp (by decide)
  have hstop : Ends (fun c => decide (c ≠ ':' ∧ isBlank c = false))
      (gap ++ (code ++ (last ++ ':' :: rest))) := by
    refine ends_append hwritten fun c hc => ?_
    simp [hblank c (List.mem_of_mem_head? hc)]
  have htext : severity.text.toList ++ (gap ++ (code ++ (last ++ [':']))) ++ rest =
      severity.text.toList ++ (gap ++ (code ++ (last ++ ':' :: rest))) := by simp
  rw [htext, behindTool?]
  dsimp only
  rw [dropWhile_run hname hstop, colonAt?_code hblank hcode]
  split <;> rfl

theorem locusAt?_eq_some_iff :
    locusAt? s = some locus ↔
      ∃ text, Marks locus.line locus.column locus.headline text ∧ s = text ++ locus.rest := by
  have hopen : "(".toList = ['('] := by decide
  have hcomma : ",".toList = [','] := by decide
  have hclose : ")".toList = [')'] := by decide
  simp only [locusAt?, bind, Option.bind_eq_some_iff, Prod.exists, after?_eq_some_iff,
    digitsAt?_eq_some_iff, colonAt?_eq_some_iff, headlineAt?_eq_some_iff, hopen, hcomma, hclose]
  constructor
  · rintro ⟨afterOpen, rfl, line, behindLine, ⟨hline, hlineEnds, rfl⟩, afterComma, rfl, column,
      behindColumn, ⟨hcolumn, hcolumnEnds, rfl⟩, afterClose, rfl, afterColon, ⟨gap, hgap, rfl⟩,
      headline, rest, ⟨text, hspells, htrim⟩, hread⟩
    cases hread
    obtain ⟨lead, hlead, hafter⟩ := exists_blank_trimStart afterColon
    refine ⟨_, .intro hline hcolumn hgap hlead hspells, ?_⟩
    rw [hafter, htrim]
    simp
  · rintro ⟨text, hmarks, rfl⟩
    obtain ⟨line, column, headline, rest⟩ := locus
    obtain ⟨hline, hcolumn, hgap, hlead, hspells⟩ := hmarks
    rename_i gap lead text
    dsimp only at hline hcolumn hspells ⊢
    let afterColon := lead ++ (text ++ rest)
    let behindColumn := ')' :: (gap ++ ':' :: afterColon)
    let behindLine := ',' :: (column ++ behindColumn)
    have hcolumnEnds : Ends isDigit behindColumn := ends_cons.mpr (by decide)
    have hlineEnds : Ends isDigit behindLine := ends_cons.mpr (by decide)
    have htrim : trimStart afterColon = text ++ rest := by
      rw [trimStart_blank_append hlead, trimStart_of_ends hspells.ends_isBlank]
    refine ⟨line ++ behindLine, ?_, line, behindLine, ⟨hline, hlineEnds, rfl⟩,
      column ++ behindColumn, rfl, column, behindColumn, ⟨hcolumn, hcolumnEnds, rfl⟩,
      gap ++ ':' :: afterColon, rfl, afterColon, ⟨gap, hgap, rfl⟩, headline, rest,
      ⟨text, hspells, htrim⟩, rfl⟩
    simp [behindLine, behindColumn, afterColon]

/-- A mark is read at an index exactly if it occurs there. -/
theorem markedAt_iff {index : Nat} :
    MarkedAt s index ↔ ∃ locus, locusAt? (s.drop index) = some locus := by
  constructor
  · rintro ⟨line, column, headline, text, hmarks, rest, hrest⟩
    exact ⟨⟨line, column, headline, rest⟩, locusAt?_eq_some_iff.mpr ⟨text, hmarks, hrest.symm⟩⟩
  · rintro ⟨locus, hlocus⟩
    obtain ⟨text, hmarks, hrest⟩ := locusAt?_eq_some_iff.mp hlocus
    exact ⟨_, _, _, text, hmarks, locus.rest, hrest.symm⟩

instance (s : List Char) (index : Nat) : Decidable (MarkedAt s index) :=
  decidable_of_iff ((locusAt? (s.drop index)).isSome = true) <| by
    rw [markedAt_iff, Option.isSome_iff_exists]

theorem MarkedAt.lt_length {index : Nat} (hmarked : MarkedAt s index) : index < s.length := by
  obtain ⟨line, column, headline, text, hmarks, hbegins⟩ := hmarked
  have hwritten : text ≠ [] := by
    obtain ⟨-, -, -, -, -⟩ := hmarks
    simp
  by_contra hend
  rw [List.drop_eq_nil_of_le (by omega), List.prefix_nil] at hbegins
  exact hwritten hbegins

theorem not_mem_severity (severity : Severity) : '(' ∉ severity.text.toList := by
  cases severity <;> decide

theorem Headline.Spells.not_mem (hspells : headline.Spells text) : '(' ∉ text := by
  obtain ⟨hwritten, hblank, ⟨_, hletters, hdigits⟩, hlast⟩ := hspells
  have hgap := not_mem_of_run hblank (by decide : isBlank '(' = false)
  have hletter := not_mem_of_run hletters (by decide : '('.isAlpha = false)
  have hdigit := not_mem_of_run hdigits.digits (by decide : isDigit '(' = false)
  have hend := not_mem_of_run hlast (by decide : isBlank '(' = false)
  simp [not_mem_severity, hgap, hletter, hdigit, hend]

/-- A mark opens one parenthesis. -/
theorem Marks.exists_cons (hmarks : Marks line column headline text) :
    ∃ tail, text = '(' :: tail ∧ '(' ∉ tail := by
  obtain ⟨hline, hcolumn, hgap, hlead, hspells⟩ := hmarks
  refine ⟨_, rfl, ?_⟩
  have hlineFree := not_mem_of_run hline.digits (by decide : isDigit '(' = false)
  have hcolumnFree := not_mem_of_run hcolumn.digits (by decide : isDigit '(' = false)
  have hgapFree := not_mem_of_run hgap (by decide : isBlank '(' = false)
  have hleadFree := not_mem_of_run hlead (by decide : isBlank '(' = false)
  simp [hlineFree, hcolumnFree, hgapFree, hleadFree, hspells.not_mem]

theorem Marks.ends_isBlank (hmarks : Marks line column headline text) :
    Ends isBlank (text ++ s) := by
  obtain ⟨tail, rfl, -⟩ := hmarks.exists_cons
  exact ends_cons.mpr (by decide)

/-- A mark does not reach over the next parenthesis. -/
theorem Marks.prefix_of_open {before : List Char} (hmarks : Marks line column headline text)
    (hbefore : before ≠ []) (hbegins : text <+: before ++ '(' :: rest) : text <+: before := by
  obtain ⟨tail, rfl, hfree⟩ := hmarks.exists_cons
  cases before with
  | nil => exact absurd rfl hbefore
  | cons c before =>
      rw [List.cons_append, List.cons_prefix_cons] at hbegins
      obtain ⟨rfl, hbegins⟩ := hbegins
      exact List.cons_prefix_cons.mpr ⟨rfl, prefix_of_prefix_append_cons hfree hbegins⟩

/-- A mark of a text is a mark of what ends with the text. -/
theorem MarkedAt.behind {index : Nat} (hmarked : MarkedAt s index) (front : List Char) :
    MarkedAt (front ++ s) (front.length + index) := by
  unfold MarkedAt
  rwa [← List.drop_drop, List.drop_left]

/-- A mark of a text is a mark of what begins with the text. -/
theorem MarkedAt.before {index : Nat} (hmarked : MarkedAt s index) (back : List Char) :
    MarkedAt (s ++ back) index := by
  have hlength := hmarked.lt_length
  obtain ⟨line, column, headline, text, hmarks, hbegins⟩ := hmarked
  refine ⟨line, column, headline, text, hmarks, ?_⟩
  rw [List.drop_append_of_le_length (Nat.le_of_lt hlength)]
  exact hbegins.trans (List.prefix_append _ back)

/-- Behind a front without a parenthesis a text has the marks that it has by itself. -/
theorem markedAt_append {front : List Char} {index : Nat} (hfree : '(' ∉ front) :
    MarkedAt (front ++ s) index ↔ front.length ≤ index ∧ MarkedAt s (index - front.length) := by
  constructor
  · rintro ⟨line, column, headline, text, hmarks, hbegins⟩
    rw [List.drop_append] at hbegins
    cases hdrop : front.drop index with
    | nil =>
        rw [hdrop, List.nil_append] at hbegins
        exact ⟨List.drop_eq_nil_iff.mp hdrop, line, column, headline, text, hmarks, hbegins⟩
    | cons c rest =>
        obtain ⟨tail, rfl, -⟩ := hmarks.exists_cons
        rw [hdrop, List.cons_append, List.cons_prefix_cons] at hbegins
        obtain ⟨rfl, -⟩ := hbegins
        have hmem : '(' ∈ front.drop index := hdrop ▸ List.mem_cons_self
        exact absurd (List.mem_of_mem_drop hmem) hfree
  · rintro ⟨hbehind, hmarked⟩
    have hmark := hmarked.behind front
    rwa [Nat.add_sub_cancel' hbehind] at hmark

end ScriptAssembly.Diagnostic
