import Mathlib

/-!
# The order of texts

Texts are ordered by their characters, and the UTF-8 bytes of two texts are ordered as the texts
are: where two characters differ the bytes of the smaller one are smaller, for a longer encoding has
a larger first byte and encodings of one length are digits to the base 64.
-/

namespace ScriptAssembly.Text

variable {s t : String}

/-- The bytes of a text in UTF-8. -/
def bytes (s : String) : List UInt8 := s.toUTF8.data.toList

theorem bytes_eq (s : String) : bytes s = s.toList.flatMap String.utf8EncodeChar := by
  have hencode : ∀ chars : List Char, chars.utf8Encode.data.toList =
      chars.flatMap String.utf8EncodeChar := fun chars => by simp [List.utf8Encode]
  have htext : s.toUTF8 = s.toList.utf8Encode := by
    conv_lhs => rw [← String.ofList_toList (s := s)]
    rfl
  rw [bytes, htext, hencode]

/-- The first digit to the base 64 in which two numbers differ is smaller in the smaller number. -/
theorem digits_lt {v w : Nat} (hlt : v < w) :
    v / 262144 < w / 262144 ∨ v / 262144 = w / 262144 ∧ (v / 4096 % 64 < w / 4096 % 64 ∨
      v / 4096 % 64 = w / 4096 % 64 ∧ (v / 64 % 64 < w / 64 % 64 ∨
        v / 64 % 64 = w / 64 % 64 ∧ v % 64 < w % 64)) := by
  have hdigits : ∀ n, n = 262144 * (n / 262144) + (4096 * (n / 4096 % 64) +
      (64 * (n / 64 % 64) + n % 64)) := by omega
  have hdigit : ∀ n, n % 64 < 64 := fun n => Nat.mod_lt n (by decide)
  have hv := hdigits v
  have hw := hdigits w
  have hv₁ := hdigit v
  have hv₂ := hdigit (v / 64)
  have hv₃ := hdigit (v / 4096)
  have hw₁ := hdigit w
  have hw₂ := hdigit (w / 64)
  have hw₃ := hdigit (w / 4096)
  generalize v / 262144 = a, v / 4096 % 64 = b, v / 64 % 64 = c, v % 64 = d,
    w / 262144 = a', w / 4096 % 64 = b', w / 64 % 64 = c', w % 64 = d' at *
  omega

/-- The bytes of a smaller character are smaller, whatever follows. -/
theorem encodeChar_lt {c d : Char} (hlt : c < d) (rest behind : List UInt8) :
    String.utf8EncodeChar c ++ rest < String.utf8EncodeChar d ++ behind := by
  have hcd : c.val.toNat < d.val.toNat := hlt
  have hlast : d.val.toNat < 0x110000 := by
    have hvalid := d.valid
    unfold UInt32.isValidChar Nat.isValidChar at hvalid
    omega
  have hdigits := digits_lt hcd
  simp only [String.utf8EncodeChar]
  generalize c.val.toNat = v, d.val.toNat = w at *
  have hmore : ∀ n, (n % 64 + 128) % 256 = n % 64 + 128 := by omega
  have hlead : ∀ n < 0x110000, (n / 262144 % 8 + 240) % 256 = n / 262144 + 240 := by omega
  split_ifs <;>
    simp only [List.cons_append, List.nil_append, List.cons_lt_cons_iff, UInt8.lt_iff_toNat_lt,
      ← UInt8.toNat_inj, UInt8.toNat_ofNat', hmore]
  any_goals omega
  -- Two characters of four bytes are left.
  simp only [Nat.reducePow, hlead v (by omega), hlead w hlast]
  omega

theorem bytes_lt (hlt : s < t) : bytes s < bytes t := by
  have hchars : s.toList < t.toList := hlt
  rw [bytes_eq, bytes_eq]
  generalize s.toList = left, t.toList = right at hchars
  induction hchars with
  | nil =>
      rename_i c rest
      obtain ⟨lead, more, hencode⟩ :=
        List.exists_cons_of_ne_nil (String.utf8EncodeChar_ne_nil (c := c))
      rw [List.flatMap_nil, List.flatMap_cons, hencode]
      exact List.nil_lt_cons _ _
  | cons _ ih =>
      rw [List.flatMap_cons, List.flatMap_cons]
      exact List.append_left_lt ih
  | rel hlt =>
      rw [List.flatMap_cons, List.flatMap_cons]
      exact encodeChar_lt hlt _ _

/-- The code points of a text. -/
def codePoints (s : String) : List Nat := s.toList.map Char.toNat

theorem codePoints_lt_iff : codePoints s < codePoints t ↔ s < t := by
  have hchars : ∀ left right : List Char,
      left.map Char.toNat < right.map Char.toNat ↔ left < right := by
    intro left
    induction left with
    | nil =>
        intro right
        cases right <;> simp
    | cons c left ih =>
        intro right
        cases right with
        | nil => simp
        | cons d right =>
            have hrest := ih right
            rw [List.map_cons, List.map_cons, List.cons_lt_cons_iff, List.cons_lt_cons_iff, hrest,
              Char.toNat_inj]
            rfl
  exact hchars s.toList t.toList

end ScriptAssembly.Text
