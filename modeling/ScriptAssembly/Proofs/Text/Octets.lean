import ScriptAssembly.Proofs.Text.Order
import ScriptAssembly.Proofs.Text.Utf8
import ScriptAssembly.Text.Octets
import ScriptAssembly.Text.Split

/-!
# Texts and their bytes

What is read of the bytes of a text is that text, character by character: `decodeFirst` undoes the
encoding of one character and leaves the bytes behind it.  The octet text of a text has no other
slashes and dots than the text itself, for every byte of a longer encoding is above them.
-/

namespace ScriptAssembly.Text

namespace Utf8

/-- A byte with six payload bits continues a character. -/
theorem isContinuation_ofNat (n : Nat) : isContinuation (UInt8.ofNat (n % 64 + 128)) = true := by
  have hvalue : (n % 64 + 128) % 2 ^ 8 = n % 64 + 128 := Nat.mod_eq_of_lt (by omega)
  simp only [isContinuation, Bool.and_eq_true, decide_eq_true_eq, UInt8.le_iff_toNat_le,
    UInt8.toNat_ofNat', hvalue, UInt8.reduceToNat]
  omega

theorem payload_ofNat (n : Nat) : payload (UInt8.ofNat (n % 64 + 128)) = n % 64 := by
  rw [payload, UInt8.toNat_ofNat']
  omega

/-- The second byte of an encoding is one that the first byte admits: the encoding is the shortest
one, and of no surrogate. -/
theorem isSecond_ofNat {lead : UInt8} {n : Nat}
    (hlong : lead = 0xE0 → 0x20 ≤ n % 64) (hscalar : lead = 0xED → n % 64 < 0x20)
    (hplane : lead = 0xF0 → 0x10 ≤ n % 64) (hlast : lead = 0xF4 → n % 64 < 0x10) :
    isSecond lead (UInt8.ofNat (n % 64 + 128)) = true := by
  have hvalue : (n % 64 + 128) % 2 ^ 8 = n % 64 + 128 := Nat.mod_eq_of_lt (by omega)
  unfold isSecond secondRange
  split_ifs with h1 h2 h3 h4 <;>
    simp only [Bool.and_eq_true, decide_eq_true_eq, UInt8.le_iff_toNat_le, UInt8.toNat_ofNat',
      hvalue, UInt8.reduceToNat]
  · have := hlong h1
    omega
  · have := hscalar h2
    omega
  · have := hplane h3
    omega
  · have := hlast h4
    omega
  · omega

/-- The first character that is read is the one that was encoded. -/
theorem decodeFirst_encodeChar (c : Char) (rest : List UInt8) :
    ∃ lead more, String.utf8EncodeChar c = lead :: more ∧
      decodeFirst lead (more ++ rest) = (c, rest) := by
  have hvalid := c.valid
  unfold UInt32.isValidChar Nat.isValidChar at hvalid
  have hback : Char.ofNat c.val.toNat = c := Char.ofNat_toNat c
  unfold String.utf8EncodeChar
  generalize c.val.toNat = v at hvalid hback ⊢
  dsimp only
  split_ifs with hone htwo hthree <;> refine ⟨_, _, rfl, ?_⟩
  · have hlead : (UInt8.ofNat v).toNat = v := by
      rw [UInt8.toNat_ofNat']
      omega
    have hlow : UInt8.ofNat v < 0x80 := by
      rw [UInt8.lt_iff_toNat_lt, hlead]
      exact Nat.lt_succ_of_le hone
    rw [decodeFirst_of_lt hlow, hlead, hback, List.nil_append]
  · have hlead : (UInt8.ofNat (v / 64 % 32 + 192)).toNat = v / 64 + 192 := by
      rw [UInt8.toNat_ofNat']
      omega
    have hvalue : (v / 64 + 192) % 32 * 64 + v % 64 = v := by omega
    simp only [decodeFirst, UInt8.lt_iff_toNat_lt, UInt8.le_iff_toNat_le, hlead, UInt8.reduceToNat,
      List.cons_append, List.nil_append, isContinuation_ofNat, payload_ofNat, hvalue, hback]
    rw [if_neg (by omega), if_pos (by simp; omega), if_pos trivial]
  · have hlead : (UInt8.ofNat (v / 4096 % 16 + 224)).toNat = v / 4096 + 224 := by
      rw [UInt8.toNat_ofNat']
      omega
    have hsecond : isSecond (UInt8.ofNat (v / 4096 % 16 + 224))
        (UInt8.ofNat (v / 64 % 64 + 128)) = true := by
      refine isSecond_ofNat ?_ ?_ ?_ ?_ <;>
      · rw [← UInt8.toNat_inj, hlead]
        simp only [UInt8.reduceToNat]
        omega
    have hvalue : ((v / 4096 + 224) % 16 * 64 + v / 64 % 64) * 64 + v % 64 = v := by omega
    simp only [decodeFirst, UInt8.lt_iff_toNat_lt, UInt8.le_iff_toNat_le, hlead, UInt8.reduceToNat,
      List.cons_append, List.nil_append, hsecond, isContinuation_ofNat, payload_ofNat, hvalue,
      hback]
    rw [if_neg (by omega), if_neg (by simp), if_pos (by simp; omega), if_neg (by simp),
      if_pos trivial]
  · have hlead : (UInt8.ofNat (v / 262144 % 8 + 240)).toNat = v / 262144 + 240 := by
      rw [UInt8.toNat_ofNat']
      omega
    have hsecond : isSecond (UInt8.ofNat (v / 262144 % 8 + 240))
        (UInt8.ofNat (v / 4096 % 64 + 128)) = true := by
      refine isSecond_ofNat ?_ ?_ ?_ ?_ <;>
      · rw [← UInt8.toNat_inj, hlead]
        simp only [UInt8.reduceToNat]
        omega
    have hvalue : (((v / 262144 + 240) % 8 * 64 + v / 4096 % 64) * 64 + v / 64 % 64) * 64 +
        v % 64 = v := by omega
    simp only [decodeFirst, UInt8.lt_iff_toNat_lt, UInt8.le_iff_toNat_le, hlead, UInt8.reduceToNat,
      List.cons_append, List.nil_append, hsecond, isContinuation_ofNat, payload_ofNat, hvalue,
      hback]
    rw [if_neg (by omega), if_neg (by simp), if_neg (by simp), if_pos (by simp; omega),
      if_neg (by simp), if_neg (by simp), if_pos trivial]

theorem decodeLossy_encode (chars : List Char) :
    decodeLossy (chars.flatMap String.utf8EncodeChar) = chars := by
  induction chars with
  | nil => exact decodeLossy_nil
  | cons c chars ih =>
      obtain ⟨lead, more, hencode, hfirst⟩ :=
        decodeFirst_encodeChar c (chars.flatMap String.utf8EncodeChar)
      rw [List.flatMap_cons, hencode, List.cons_append, decodeLossy_cons, hfirst, ih]

end Utf8

/-- Nothing is lost of the bytes of a text. -/
theorem lossy_toUTF8 (s : String) : lossy s.toUTF8 = s.toList := by
  have hbytes : s.toUTF8.data.toList = s.toList.flatMap String.utf8EncodeChar := bytes_eq s
  rw [lossy, hbytes, Utf8.decodeLossy_encode]

theorem toNat_ofNat_toNat (b : UInt8) : (Char.ofNat b.toNat).toNat = b.toNat := by
  have hbyte := b.toNat_lt
  rw [Char.toNat_ofNat, if_pos (.inl (by omega))]

theorem ofOctets_octets (bytes : ByteArray) : ofOctets (octets bytes) = bytes := by
  have hbytes : (octets bytes).map (fun c => UInt8.ofNat c.toNat) = bytes.data.toList := by
    simp [octets, Function.comp_def, toNat_ofNat_toNat]
  rw [ofOctets, hbytes, Array.toArray_toList]

/-- Each character stands for a byte. -/
def IsOctets (s : List Char) : Prop := ∀ c ∈ s, c.toNat < 256

theorem isOctets_octets (bytes : ByteArray) : IsOctets (octets bytes) := by
  intro c hc
  obtain ⟨b, -, rfl⟩ := List.mem_map.mp hc
  rw [toNat_ofNat_toNat]
  exact b.toNat_lt

theorem octets_ofOctets {s : List Char} (hs : IsOctets s) : octets (ofOctets s) = s := by
  have hchars : ∀ c ∈ s, Char.ofNat (UInt8.ofNat c.toNat).toNat = c := fun c hc => by
    rw [UInt8.toNat_ofNat', Nat.mod_eq_of_lt (hs c hc), Char.ofNat_toNat]
  rw [octets, ofOctets, List.map_map]
  exact (List.map_congr_left hchars).trans (List.map_id' s)

/-- The octets of a character. -/
def octetsOf (c : Char) : List Char :=
  (String.utf8EncodeChar c).map fun b => Char.ofNat b.toNat

/-- The octet text of a text. -/
def encode (s : List Char) : List Char := s.flatMap octetsOf

theorem octets_toUTF8 (s : String) : octets s.toUTF8 = encode s.toList := by
  have hbytes : s.toUTF8.data.toList = s.toList.flatMap String.utf8EncodeChar := bytes_eq s
  rw [octets, hbytes, List.map_flatMap]
  rfl

theorem ofOctets_encode (s : List Char) : ofOctets (encode s) = (String.ofList s).toUTF8 := by
  rw [← ofOctets_octets (String.ofList s).toUTF8, octets_toUTF8, String.toList_ofList]

theorem encode_injective : Function.Injective encode := by
  intro s t hsame
  have hbytes := congrArg (fun octets => lossy (ofOctets octets)) hsame
  simpa only [ofOctets_encode, lossy_toUTF8, String.toList_ofList] using hbytes

theorem octetsOf_ne_nil (c : Char) : octetsOf c ≠ [] := by
  simp [octetsOf, String.utf8EncodeChar_ne_nil]

theorem octetsOf_of_lt {c : Char} (hc : c.toNat < 0x80) : octetsOf c = [c] := by
  have hlow : c.val.toNat ≤ 0x7F := Nat.le_of_lt_succ hc
  have hbyte : (UInt8.ofNat c.val.toNat).toNat = c.toNat := by
    rw [UInt8.toNat_ofNat']
    exact Nat.mod_eq_of_lt (by omega)
  rw [octetsOf, String.utf8EncodeChar]
  simp only [if_pos hlow, List.map_cons, List.map_nil, hbyte, Char.ofNat_toNat]

/-- A byte that is a character by itself belongs to no longer encoding. -/
theorem eq_of_mem_octetsOf {c d : Char} (hd : d.toNat < 0x80) (hmem : d ∈ octetsOf c) : c = d := by
  by_cases hc : c.toNat < 0x80
  · rw [octetsOf_of_lt hc, List.mem_singleton] at hmem
    exact hmem.symm
  · have hhigh : ∀ b ∈ String.utf8EncodeChar c, 0x80 ≤ b.toNat := by
      have hlong : ¬c.val.toNat ≤ 0x7F := fun hlow => hc (Nat.lt_succ_of_le hlow)
      intro b hb
      rw [String.utf8EncodeChar] at hb
      simp only [if_neg hlong] at hb
      split_ifs at hb <;> simp only [List.mem_cons, List.not_mem_nil, or_false] at hb <;>
        rcases hb with rfl | rfl | rfl | rfl <;> rw [UInt8.toNat_ofNat'] <;> omega
    obtain ⟨b, hb, rfl⟩ := List.mem_map.mp hmem
    rw [toNat_ofNat_toNat] at hd
    exact absurd (hhigh b hb) (by omega)

theorem encode_cons (c : Char) (s : List Char) : encode (c :: s) = octetsOf c ++ encode s :=
  List.flatMap_cons

theorem encode_append (s t : List Char) : encode (s ++ t) = encode s ++ encode t :=
  List.flatMap_append

theorem encode_cons_of_lt {c : Char} (hc : c.toNat < 0x80) (s : List Char) :
    encode (c :: s) = c :: encode s := by
  rw [encode_cons, octetsOf_of_lt hc, List.singleton_append]

theorem eq_nil_of_encode {s : List Char} (hs : encode s = []) : s = [] := encode_injective hs

/-- A text whose octets begin with a byte that is a character begins with that character. -/
theorem exists_of_encode_eq_cons {d : Char} (hd : d.toNat < 0x80) {s rest : List Char}
    (hs : encode s = d :: rest) : ∃ behind, s = d :: behind ∧ encode behind = rest := by
  cases s with
  | nil => cases hs
  | cons c behind =>
      have hhead : d ∈ octetsOf c := by
        obtain ⟨first, more, hoctets⟩ := List.exists_cons_of_ne_nil (octetsOf_ne_nil c)
        rw [encode_cons, hoctets, List.cons_append, List.cons.injEq] at hs
        rw [hoctets, hs.1]
        exact List.mem_cons_self
      obtain rfl := eq_of_mem_octetsOf hd hhead
      rw [encode_cons_of_lt hd, List.cons.injEq] at hs
      exact ⟨behind, rfl, hs.2⟩

theorem mem_of_mem_encode {d : Char} (hd : d.toNat < 0x80) {s : List Char} (hs : d ∈ encode s) :
    d ∈ s := by
  obtain ⟨c, hc, hmem⟩ := List.mem_flatMap.mp hs
  exact eq_of_mem_octetsOf hd hmem ▸ hc

theorem getLast?_encode_iff {d : Char} (hd : d.toNat < 0x80) {s : List Char} :
    (encode s).getLast? = some d ↔ s.getLast? = some d := by
  rcases List.eq_nil_or_concat s with rfl | ⟨front, c, rfl⟩
  · rfl
  · have hlast : encode [c] = octetsOf c := List.append_nil _
    rw [List.concat_eq_append, encode_append, hlast,
      List.getLast?_append_of_ne_nil _ (octetsOf_ne_nil c), List.getLast?_concat, Option.some_inj]
    constructor
    · intro hmem
      exact eq_of_mem_octetsOf hd (List.mem_of_getLast? hmem)
    · rintro rfl
      rw [octetsOf_of_lt hd]
      rfl

theorem encode_join {separator : Char} (hseparator : separator.toNat < 0x80)
    (parts : List (List Char)) :
    encode (join separator parts) = join separator (parts.map encode) := by
  induction parts with
  | nil => rfl
  | cons piece others ih =>
      by_cases hothers : others = []
      · subst hothers
        rfl
      · rw [join_cons_of_ne_nil piece hothers, encode_append, encode_cons_of_lt hseparator, ih,
          List.map_cons, join_cons_of_ne_nil _ (by simpa using hothers)]

/-- The pieces of an octet text are the octet texts of the pieces. -/
theorem split_encode {separator : Char} (hseparator : separator.toNat < 0x80) (s : List Char) :
    split separator (encode s) = (split separator s).map encode := by
  have hne : (split separator s).map encode ≠ [] := fun hnil =>
    splitWhere_ne_nil _ s (List.map_eq_nil_iff.mp hnil)
  have hpieces : ∀ piece ∈ (split separator s).map encode, separator ∉ piece := by
    rintro _ hencoded hmem
    obtain ⟨piece, hpiece, rfl⟩ := List.mem_map.mp hencoded
    exact not_mem_of_mem_split hpiece (mem_of_mem_encode hseparator hmem)
  conv_lhs => rw [← join_split separator s, encode_join hseparator]
  exact split_join hne hpieces

end ScriptAssembly.Text
