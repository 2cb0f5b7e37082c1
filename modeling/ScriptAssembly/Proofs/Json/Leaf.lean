import ScriptAssembly.Json.Draft
import ScriptAssembly.Proofs.Text.Run

/-!
# Reading back strings and numbers

A quoted string is read as the string it was made from, whatever follows it.  A natural number is
read as itself if nothing that could belong to a number follows its digits.
-/

namespace ScriptAssembly.Json

namespace Draft

/-! ## Strings -/

theorem hexValue?_hexDigit {n : Nat} (hn : n < 16) : hexValue? (hexDigit n) = some n := by
  have hall : ∀ k < 16, hexValue? (hexDigit k) = some k := by decide
  exact hall n hn

/-- A control character is read back from its two hexadecimal digits. -/
theorem unitAt_control {c : Char} (hc : c.toNat < 0x20) (rest : List Char) :
    unitAt ('0' :: '0' :: hexDigit (c.toNat / 16) :: hexDigit (c.toNat % 16) :: rest) =
      .ok (c.toNat, rest) := by
  have hzero : hexValue? '0' = some 0 := by decide
  have hhigh := hexValue?_hexDigit (n := c.toNat / 16) (by omega)
  have hlow := hexValue?_hexDigit (n := c.toNat % 16) (by omega)
  have hvalue : ((0 * 16 + 0) * 16 + c.toNat / 16) * 16 + c.toNat % 16 = c.toNat := by omega
  simp only [unitAt, hzero, hhigh, hlow, hvalue]

/-- A character is written as an escape that stands for it, or plainly. -/
theorem escapeChar_cases (c : Char) :
    (∃ code, escapeChar c = '\\' :: code ∧ ∀ rest,
      escapeAt (code ++ rest) = .ok (c, rest) ∧ skipEscape (code ++ rest) = .ok rest) ∨
      (escapeChar c = [c] ∧ c ≠ '"' ∧ c ≠ '\\' ∧ 0x20 ≤ c.toNat) := by
  by_cases hshort : c ∈ ['"', '\\', '\n', '\r', '\t', '\x08', '\x0c']
  · left
    simp only [List.mem_cons, List.not_mem_nil, or_false] at hshort
    rcases hshort with rfl | rfl | rfl | rfl | rfl | rfl | rfl <;>
      exact ⟨_, rfl, fun rest => ⟨rfl, rfl⟩⟩
  · simp only [List.mem_cons, List.not_mem_nil, or_false, not_or] at hshort
    obtain ⟨hquote, hback, hfeed, hreturn, htab, hbell, hform⟩ := hshort
    by_cases hcontrol : c.toNat < 0x20
    · left
      refine ⟨['u', '0', '0', hexDigit (c.toNat / 16), hexDigit (c.toNat % 16)], ?_, fun rest => ?_⟩
      · simp [escapeChar, hquote, hback, hfeed, hreturn, htab, hbell, hform, hcontrol]
      · have hunit := unitAt_control hcontrol rest
        have hplain : isSurrogate c.toNat = false := by simp [isSurrogate]; omega
        constructor
        · simp [escapeAt, hunit, hplain]
        · simp only [skipEscape, List.cons_append, List.nil_append, hunit]
          rfl
    · right
      refine ⟨?_, hquote, hback, by omega⟩
      simp [escapeChar, hquote, hback, hfeed, hreturn, htab, hbell, hform, hcontrol]

theorem stringFrom_escapeChar (fuel : Nat) (c : Char) (rest : List Char) :
    stringFrom (fuel + 1) (escapeChar c ++ rest) = (stringFrom fuel rest).map (c :: ·) := by
  rcases escapeChar_cases c with ⟨code, hcode, hread⟩ | ⟨hplain, hquote, hback, hcontrol⟩
  · simp [hcode, stringFrom, (hread rest).1]
  · have hnot : ¬ c.toNat < 0x20 := by omega
    simp [hplain, stringFrom, hquote, hback, hnot]

theorem skipStringFrom_escapeChar (fuel : Nat) (c : Char) (rest : List Char) :
    skipStringFrom (fuel + 1) (escapeChar c ++ rest) = skipStringFrom fuel rest := by
  rcases escapeChar_cases c with ⟨code, hcode, hread⟩ | ⟨hplain, hquote, hback, hcontrol⟩
  · simp [hcode, skipStringFrom, (hread rest).2]
  · have hnot : ¬ c.toNat < 0x20 := by omega
    simp [hplain, skipStringFrom, hquote, hback, hnot]

theorem stringFrom_quoted (s rest : List Char) {fuel : Nat} (hfuel : s.length < fuel) :
    stringFrom fuel (s.flatMap escapeChar ++ '"' :: rest) = .ok s := by
  induction s generalizing fuel with
  | nil =>
      obtain ⟨fuel, rfl⟩ := Nat.exists_eq_add_of_lt hfuel
      simp [stringFrom]
  | cons c s ih =>
      obtain ⟨fuel, rfl⟩ := Nat.exists_eq_succ_of_ne_zero (Nat.ne_of_gt (Nat.zero_lt_of_lt hfuel))
      rw [List.flatMap_cons, List.append_assoc, stringFrom_escapeChar, ih (by simpa using hfuel)]
      rfl

theorem skipStringFrom_quoted (s rest : List Char) {fuel : Nat} (hfuel : s.length < fuel) :
    skipStringFrom fuel (s.flatMap escapeChar ++ '"' :: rest) = .ok rest := by
  induction s generalizing fuel with
  | nil =>
      obtain ⟨fuel, rfl⟩ := Nat.exists_eq_add_of_lt hfuel
      simp [skipStringFrom]
  | cons c s ih =>
      obtain ⟨fuel, rfl⟩ := Nat.exists_eq_succ_of_ne_zero (Nat.ne_of_gt (Nat.zero_lt_of_lt hfuel))
      rw [List.flatMap_cons, List.append_assoc, skipStringFrom_escapeChar,
        ih (by simpa using hfuel)]

theorem length_le_length_escaped (s : List Char) : s.length ≤ (s.flatMap escapeChar).length := by
  induction s with
  | nil => simp
  | cons c s ih =>
      have hpositive : 1 ≤ (escapeChar c).length := by
        rcases escapeChar_cases c with ⟨code, hcode, -⟩ | ⟨hplain, -⟩
        · simp [hcode]
        · simp [hplain]
      simp only [List.flatMap_cons, List.length_append, List.length_cons]
      omega

theorem length_lt_length_quoted (s rest : List Char) :
    s.length < (s.flatMap escapeChar ++ '"' :: rest).length + 1 := by
  have hescaped := length_le_length_escaped s
  simp only [List.length_append]
  omega

theorem skipString_quoted (s rest : List Char) :
    skipString (s.flatMap escapeChar ++ '"' :: rest) = .ok rest :=
  skipStringFrom_quoted s rest (length_lt_length_quoted s rest)

theorem stringAt_quoted (s : String) (rest : List Char) :
    stringAt (s.toList.flatMap escapeChar ++ '"' :: rest) = .ok s := by
  rw [stringAt, stringFrom_quoted _ _ (length_lt_length_quoted s.toList rest)]
  simp [Except.map]

theorem leafAt_quote (s : String) (rest : List Char) :
    leafAt (quote s ++ rest) = (.string (.ok s), some rest) := by
  simp [quote, leafAt, skipString_quoted, stringAt_quoted]

end Draft

/-! ## Numbers -/

namespace Decimal

theorem le_ofDigitChars (digits : List Char) (start : Nat) :
    start ≤ Nat.ofDigitChars 10 digits start := by
  induction digits generalizing start with
  | nil => simp
  | cons c digits ih =>
      rw [Nat.ofDigitChars_cons]
      have hstep := ih (10 * start + (c.toNat - '0'.toNat))
      omega

/-- Digits that together fit 64 bits are all taken. -/
theorem takeInteger_digits (digits : List Char) (significand : UInt64)
    (hfits : Nat.ofDigitChars 10 digits significand.toNat < UInt64.size) :
    takeInteger (digits.map Draft.digit) significand =
      ⟨.ofNat (Nat.ofDigitChars 10 digits significand.toNat), 0⟩ := by
  induction digits generalizing significand with
  | nil => simp [takeInteger]
  | cons c digits ih =>
      rw [Nat.ofDigitChars_cons] at hfits ⊢
      have hdigit : c.toNat - '0'.toNat = Draft.digit c := rfl
      rw [hdigit, Nat.mul_comm] at hfits ⊢
      have hone : significand.toNat * 10 + Draft.digit c < UInt64.size :=
        Nat.lt_of_le_of_lt (le_ofDigitChars digits _) hfits
      have hpush : (push significand (Draft.digit c)).toNat =
          significand.toNat * 10 + Draft.digit c :=
        UInt64.toNat_ofNat_of_lt hone
      rw [← hpush] at hfits ⊢
      simp only [List.map_cons, takeInteger, fits, hone, decide_true, ↓reduceIte]
      exact ih _ hfits

end Decimal

namespace Draft

/-- The text goes on with nothing that belongs to a number. -/
def Stops (rest : List Char) : Prop :=
  ∀ c ∈ rest.head?, c.isDigit = false ∧ c ≠ '.' ∧ c ≠ 'e' ∧ c ≠ 'E'

theorem stops_nil : Stops [] := by simp [Stops]

theorem stops_cons {c : Char} (rest : List Char)
    (hc : c.isDigit = false ∧ c ≠ '.' ∧ c ≠ 'e' ∧ c ≠ 'E') : Stops (c :: rest) := by
  simpa [Stops] using hc

theorem isDigit_of_mem_toDigits {n : Nat} {c : Char} (hc : c ∈ Nat.toDigits 10 n) :
    c.isDigit = true :=
  Nat.isDigit_of_mem_toDigits (by decide) (by decide) hc

/-- Only zero is written with a zero in front. -/
theorem head?_toDigits_ne_zero {n : Nat} (hn : 0 < n) : (Nat.toDigits 10 n).head? ≠ some '0' := by
  induction n using Nat.strongRecOn with
  | ind n ih =>
      rw [Nat.toDigits_eq_if (by decide)]
      split
      · simp only [List.head?_cons, ne_eq, Option.some.injEq, Nat.digitChar_eq_zero]
        omega
      · have hrest := ih (n / 10) (by omega) (by omega)
        rwa [List.head?_append, Option.or_of_isSome (by simp [Nat.toDigits_ne_nil])]

theorem digitsAt_toDigits (n : Nat) {rest : List Char} (hrest : Stops rest) :
    digitsAt (Nat.toDigits 10 n ++ rest) = .ok ((Nat.toDigits 10 n).map digit, rest) := by
  have hall : ∀ c ∈ Nat.toDigits 10 n, c.isDigit = true := fun c hc => isDigit_of_mem_toDigits hc
  have hends : Text.Ends Char.isDigit rest := fun c hc => (hrest c hc).1
  have htake := Text.takeWhile_run hall hends
  have hdrop := Text.dropWhile_run hall hends
  cases hdigits : Nat.toDigits 10 n with
  | nil => exact absurd hdigits Nat.toDigits_ne_nil
  | cons c digits =>
      rw [hdigits] at htake hdrop hall
      have hc := hall c List.mem_cons_self
      rw [List.cons_append] at htake hdrop ⊢
      simp only [digitsAt, hc, ↓reduceIte, htake, hdrop]

theorem wholeAt_toDigits (n : Nat) {rest : List Char} (hrest : Stops rest) :
    wholeAt (Nat.toDigits 10 n ++ rest) = .ok ((Nat.toDigits 10 n).map digit, rest) := by
  rcases Nat.eq_zero_or_pos n with rfl | hn
  · cases rest with
    | nil => rfl
    | cons c rest => simp [wholeAt, Nat.toDigits_zero, (hrest c rfl).1, digit]
  · rw [wholeAt.eq_2, digitsAt_toDigits n hrest]
    intro c behind hzero
    apply head?_toDigits_ne_zero hn
    have hhead := congrArg List.head? hzero
    rwa [List.head?_append, Option.or_of_isSome (by simp [Nat.toDigits_ne_nil])] at hhead

theorem numeralAt_toDigits (n : Nat) {rest : List Char} (hrest : Stops rest) :
    numeralAt (Nat.toDigits 10 n ++ rest) =
      .ok (⟨false, (Nat.toDigits 10 n).map digit, none, none⟩, rest) := by
  have hwhole := wholeAt_toDigits n hrest
  have hfraction : fractionAt rest = .ok (none, rest) := by
    apply fractionAt.eq_2
    rintro behind rfl
    exact (hrest '.' rfl).2.1 rfl
  have hexponent : exponentAt rest = .ok (none, rest) := by
    apply exponentAt.eq_3
    · rintro behind rfl
      exact (hrest 'e' rfl).2.2.1 rfl
    · rintro behind rfl
      exact (hrest 'E' rfl).2.2.2 rfl
  unfold numeralAt
  split
  · rename_i negative s behind hsign
    split at hsign
    · rename_i tail hminus
      have hhead := congrArg List.head? hminus
      rw [List.head?_append, Option.or_of_isSome (by simp [Nat.toDigits_ne_nil])] at hhead
      have hdigit := isDigit_of_mem_toDigits (List.mem_of_head? hhead)
      exact absurd hdigit (by decide)
    · obtain ⟨rfl, rfl⟩ := Prod.mk.inj hsign
      simp only [hwhole, hfraction, hexponent, bind, Except.bind, pure, Except.pure]

theorem value?_toDigits (n : UInt64) :
    Numeral.value? ⟨false, (Nat.toDigits 10 n.toNat).map digit, none, none⟩ =
      some (.natural n) := by
  have hwhole : Decimal.takeInteger ((Nat.toDigits 10 n.toNat).map digit) 0 = ⟨n, 0⟩ := by
    have hread := Decimal.takeInteger_digits (Nat.toDigits 10 n.toNat) 0
    simp only [UInt64.toNat_zero, Nat.ofDigitChars_ten_toDigits, UInt64.ofNat_toNat] at hread
    exact hread n.toNat_lt_size
  simp [Numeral.value?, hwhole, Numeral.integer]

theorem leafAt_natural (n : UInt64) {rest : List Char} (hrest : Stops rest) :
    leafAt ((Number.natural n).text.toList ++ rest) =
      (.number (.ok (.natural n)), some rest) := by
  have htext : (Number.natural n).text.toList = Nat.toDigits 10 n.toNat := by
    simp [Number.text, Nat.toString_eq_repr]
  have hnumeral := numeralAt_toDigits n.toNat hrest
  rw [htext]
  cases hdigits : Nat.toDigits 10 n.toNat with
  | nil => exact absurd hdigits Nat.toDigits_ne_nil
  | cons c digits =>
      have hc : c.isDigit = true := isDigit_of_mem_toDigits (hdigits ▸ List.mem_cons_self)
      have hne : ∀ other, other.isDigit = false → c ≠ other := by
        rintro other hother rfl
        simp [hc] at hother
      have hvalue := value?_toDigits n
      rw [hdigits] at hnumeral hvalue
      rw [List.cons_append] at hnumeral ⊢
      have hquote := hne '"' (by decide)
      have hn := hne 'n' (by decide)
      have ht := hne 't' (by decide)
      have hf := hne 'f' (by decide)
      rw [leafAt.eq_3 _ _ hquote]
      simp only [hn, ht, hf, hc, hnumeral, hvalue, ↓reduceIte, Bool.or_true, Option.elim_some]

end Draft

end ScriptAssembly.Json
