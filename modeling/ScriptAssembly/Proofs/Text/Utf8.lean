import Mathlib
import ScriptAssembly.Text.Utf8

/-!
# Reading UTF-8 piece by piece

A byte that is a character by itself ends whatever was begun before it.  So a text with such a byte
in it is read in two halves that know nothing of each other, `decodeLossy_append`.  A byte order
mark is read from its own three bytes and from no others.
-/

namespace ScriptAssembly.Text.Utf8

variable {lead stop : UInt8} {rest bytes : List UInt8}

theorem isContinuation_eq_false (hstop : stop < 0x80) : isContinuation stop = false := by
  rw [isContinuation, decide_eq_false (UInt8.not_le.mpr hstop), Bool.false_and]

theorem le_secondRange (lead : UInt8) : 0x80 ≤ (secondRange lead).1 := by
  unfold secondRange
  repeat' split
  all_goals decide

theorem isSecond_eq_false (lead : UInt8) (hstop : stop < 0x80) : isSecond lead stop = false := by
  have hlow : ¬(secondRange lead).1 ≤ stop :=
    UInt8.not_le.mpr (UInt8.lt_of_lt_of_le hstop (le_secondRange lead))
  rw [isSecond, decide_eq_false hlow, Bool.false_and]

/-- A byte that is a character by itself ends what stands before it. -/
theorem decodeFirst_append (lead : UInt8) (rest behind : List UInt8) (hstop : stop < 0x80) :
    decodeFirst lead (rest ++ stop :: behind) =
      ((decodeFirst lead rest).1, (decodeFirst lead rest).2 ++ stop :: behind) := by
  have hcontinuation := isContinuation_eq_false hstop
  have hsecond := isSecond_eq_false lead hstop
  unfold decodeFirst
  split
  · rfl
  split
  · cases rest with
    | nil => simp [hcontinuation]
    | cons b rest =>
        dsimp only [List.cons_append]
        split <;> rfl
  split
  · cases rest with
    | nil => simp [hsecond]
    | cons b rest =>
        dsimp only [List.cons_append]
        split
        · rfl
        cases rest with
        | nil => simp [hcontinuation]
        | cons c rest =>
            dsimp only [List.cons_append]
            split <;> rfl
  split
  · cases rest with
    | nil => simp [hsecond]
    | cons b rest =>
        dsimp only [List.cons_append]
        split
        · rfl
        cases rest with
        | nil => simp [hcontinuation]
        | cons c rest =>
            dsimp only [List.cons_append]
            split
            · rfl
            cases rest with
            | nil => simp [hcontinuation]
            | cons d rest =>
                dsimp only [List.cons_append]
                split <;> rfl
  · rfl

theorem decodeFirst_of_lt (hlead : lead < 0x80) (rest : List UInt8) :
    decodeFirst lead rest = (Char.ofNat lead.toNat, rest) := if_pos hlead

theorem decodeLossy_nil : decodeLossy [] = [] := by rw [decodeLossy]

theorem decodeLossy_cons (lead : UInt8) (rest : List UInt8) :
    decodeLossy (lead :: rest) =
      (decodeFirst lead rest).1 :: decodeLossy (decodeFirst lead rest).2 := by
  rw [decodeLossy]

theorem decodeLossy_append (bytes behind : List UInt8) (hstop : stop < 0x80) :
    decodeLossy (bytes ++ stop :: behind) =
      decodeLossy bytes ++ Char.ofNat stop.toNat :: decodeLossy behind := by
  induction bytes using decodeLossy.induct with
  | case1 =>
      rw [decodeLossy_nil, List.nil_append, List.nil_append, decodeLossy_cons,
        decodeFirst_of_lt hstop]
  | case2 lead rest ih =>
      rw [List.cons_append, decodeLossy, decodeFirst_append lead rest behind hstop, ih, decodeLossy]
      rfl

theorem eq_of_ofNat_eq_mark {n : Nat} (hn : Char.ofNat n = '\uFEFF') : n = 0xFEFF := by
  have hvalue := congrArg Char.toNat hn
  rw [Char.toNat_ofNat] at hvalue
  split at hvalue
  · exact hvalue
  · cases hvalue

theorem toNat_of_isContinuation {b : UInt8} (hb : isContinuation b) :
    0x80 ≤ b.toNat ∧ b.toNat ≤ 0xBF := by
  simpa [isContinuation, UInt8.le_iff_toNat_le] using hb

theorem toNat_of_isSecond {b : UInt8} (hb : isSecond lead b) :
    0x80 ≤ b.toNat ∧ b.toNat ≤ 0xBF ∧ (lead = 0xF0 → 0x90 ≤ b.toNat) := by
  rw [isSecond, Bool.and_eq_true, decide_eq_true_eq, decide_eq_true_eq, UInt8.le_iff_toNat_le,
    UInt8.le_iff_toNat_le] at hb
  obtain ⟨hlow, hhigh⟩ := hb
  have hrange : 0x80 ≤ (secondRange lead).1.toNat ∧ (secondRange lead).2.toNat ≤ 0xBF ∧
      (lead = 0xF0 → 0x90 ≤ (secondRange lead).1.toNat) := by
    unfold secondRange
    repeat' split
    all_goals simp_all
  exact ⟨hrange.1.trans hlow, hhigh.trans hrange.2.1, fun hlead => (hrange.2.2 hlead).trans hlow⟩

/-- What the first character of `lead :: rest` can be: a character of one to four bytes, or the
replacement. -/
inductive First (lead : UInt8) (rest : List UInt8) : Char → Prop
  | one (hlead : lead < 0x80) : First lead rest (Char.ofNat lead.toNat)
  | two {b tail} (hrest : rest = b :: tail) :
      First lead rest (Char.ofNat (lead.toNat % 32 * 64 + payload b))
  | three {b c tail} (hrest : rest = b :: c :: tail) (hlead : 0xE0 ≤ lead ∧ lead ≤ 0xEF)
      (hb : isSecond lead b) (hc : isContinuation c) :
      First lead rest (Char.ofNat ((lead.toNat % 16 * 64 + payload b) * 64 + payload c))
  | four {b c d tail} (hrest : rest = b :: c :: d :: tail) (hlead : 0xF0 ≤ lead ∧ lead ≤ 0xF4)
      (hb : isSecond lead b) :
      First lead rest
        (Char.ofNat (((lead.toNat % 8 * 64 + payload b) * 64 + payload c) * 64 + payload d))
  | broken : First lead rest replacement

theorem first_decodeFirst (lead : UInt8) (rest : List UInt8) :
    First lead rest (decodeFirst lead rest).1 := by
  unfold decodeFirst
  split
  · next hlead => exact .one hlead
  split
  · cases rest with
    | nil => exact .broken
    | cons b rest =>
        dsimp only
        split
        · exact .two rfl
        · exact .broken
  split
  · next hlead =>
    cases rest with
    | nil => exact .broken
    | cons b rest =>
        dsimp only
        split
        · exact .broken
        next hb =>
        cases rest with
        | nil => exact .broken
        | cons c rest =>
            dsimp only
            split
            · next hc => exact .three rfl (by simpa using hlead) (by simpa using hb) hc
            · exact .broken
  split
  · next hlead =>
    cases rest with
    | nil => exact .broken
    | cons b rest =>
        dsimp only
        split
        · exact .broken
        next hb =>
        cases rest with
        | nil => exact .broken
        | cons c rest =>
            dsimp only
            split
            · exact .broken
            cases rest with
            | nil => exact .broken
            | cons d rest =>
                dsimp only
                split
                · exact .four rfl (by simpa using hlead) (by simpa using hb)
                · exact .broken
  · exact .broken

/-- Only the three bytes of a byte order mark are read as one. -/
theorem mark_of_decodeFirst (hmark : (decodeFirst lead rest).1 = '\uFEFF') :
    [0xEF, 0xBB, 0xBF] <+: lead :: rest := by
  have hfirst := first_decodeFirst lead rest
  rw [hmark] at hfirst
  generalize hc : '\uFEFF' = c at hfirst
  cases hfirst with
  | one hlead =>
      have hvalue := eq_of_ofNat_eq_mark hc.symm
      have hlimit := UInt8.lt_iff_toNat_lt.mp hlead
      simp only [UInt8.reduceToNat] at hlimit
      omega
  | two hrest =>
      have hvalue := eq_of_ofNat_eq_mark hc.symm
      unfold payload at hvalue
      omega
  | @three b c tail hrest hlead hsecond hthird =>
      have hvalue := eq_of_ofNat_eq_mark hc.symm
      have hlimits := toNat_of_isSecond hsecond
      have hthird := toNat_of_isContinuation hthird
      simp only [UInt8.le_iff_toNat_le, UInt8.reduceToNat] at hlead
      unfold payload at hvalue
      have hleadByte : lead = 0xEF := UInt8.toNat_inj.mp (by simp only [UInt8.reduceToNat]; omega)
      have hsecondByte : b = 0xBB := UInt8.toNat_inj.mp (by simp only [UInt8.reduceToNat]; omega)
      have hthirdByte : c = 0xBF := UInt8.toNat_inj.mp (by simp only [UInt8.reduceToNat]; omega)
      rw [hrest, hleadByte, hsecondByte, hthirdByte]
      exact ⟨tail, rfl⟩
  | @four b c d tail hrest hlead hsecond =>
      have hvalue := eq_of_ofNat_eq_mark hc.symm
      have hlimits := toNat_of_isSecond hsecond
      simp only [UInt8.le_iff_toNat_le, UInt8.reduceToNat] at hlead
      unfold payload at hvalue
      by_cases hlowest : lead = 0xF0
      · have hlow := hlimits.2.2 hlowest
        omega
      · have hhigher : lead.toNat ≠ 0xF0 := fun h => hlowest (UInt8.toNat_inj.mp h)
        omega
  | broken => exact absurd hc (by decide)

end ScriptAssembly.Text.Utf8
