/-!
# UTF-8

`decodeLossy` reads bytes as UTF-8 and puts a replacement character for every maximal piece that
begins no character.  A byte that cannot continue a character never belongs to such a piece, so a
broken line never damages the next one.
-/

namespace ScriptAssembly.Text.Utf8

/-- The character that stands for bytes that are not UTF-8. -/
def replacement : Char := '\uFFFD'

/-- A byte that continues a character. -/
def isContinuation (b : UInt8) : Bool := 0x80 ≤ b && b ≤ 0xBF

/-- The bytes that may follow a lead byte in a character of three or four bytes. -/
def secondRange (lead : UInt8) : UInt8 × UInt8 :=
  if lead = 0xE0 then (0xA0, 0xBF)
  else if lead = 0xED then (0x80, 0x9F)
  else if lead = 0xF0 then (0x90, 0xBF)
  else if lead = 0xF4 then (0x80, 0x8F)
  else (0x80, 0xBF)

/-- The second byte is one that the lead byte admits. -/
def isSecond (lead second : UInt8) : Bool :=
  (secondRange lead).1 ≤ second && second ≤ (secondRange lead).2

/-- The six payload bits of a continuation byte. -/
def payload (b : UInt8) : Nat := b.toNat % 64

/-- The first character of `lead :: rest` and the bytes after it. -/
def decodeFirst (lead : UInt8) (rest : List UInt8) : Char × List UInt8 :=
  if lead < 0x80 then (Char.ofNat lead.toNat, rest)
  else if 0xC2 ≤ lead && lead ≤ 0xDF then
    match rest with
    | b :: rest₁ =>
      if isContinuation b then (Char.ofNat (lead.toNat % 32 * 64 + payload b), rest₁)
      else (replacement, rest)
    | [] => (replacement, [])
  else if 0xE0 ≤ lead && lead ≤ 0xEF then
    match rest with
    | b :: rest₁ =>
      if !isSecond lead b then (replacement, rest) else
      match rest₁ with
      | c :: rest₂ =>
        if isContinuation c then
          (Char.ofNat ((lead.toNat % 16 * 64 + payload b) * 64 + payload c), rest₂)
        else (replacement, rest₁)
      | [] => (replacement, [])
    | [] => (replacement, [])
  else if 0xF0 ≤ lead && lead ≤ 0xF4 then
    match rest with
    | b :: rest₁ =>
      if !isSecond lead b then (replacement, rest) else
      match rest₁ with
      | c :: rest₂ =>
        if !isContinuation c then (replacement, rest₁) else
        match rest₂ with
        | d :: rest₃ =>
          if isContinuation d then
            (Char.ofNat (((lead.toNat % 8 * 64 + payload b) * 64 + payload c) * 64 + payload d),
              rest₃)
          else (replacement, rest₂)
        | [] => (replacement, [])
      | [] => (replacement, [])
    | [] => (replacement, [])
  else (replacement, rest)

theorem decodeFirst_length_le (lead : UInt8) (rest : List UInt8) :
    (decodeFirst lead rest).2.length ≤ rest.length := by
  unfold decodeFirst
  repeat' split
  all_goals (simp only [List.length_cons, List.length_nil]; omega)

/-- The text of a list of bytes, with replacement characters for what is not UTF-8. -/
def decodeLossy : List UInt8 → List Char
  | [] => []
  | lead :: rest => (decodeFirst lead rest).1 :: decodeLossy (decodeFirst lead rest).2
termination_by bytes => bytes.length
decreasing_by
  have := decodeFirst_length_le lead rest
  simp only [List.length_cons]
  omega

end ScriptAssembly.Text.Utf8

namespace ScriptAssembly.Text

/-- The text of a file's content, with replacement characters for what is not UTF-8. -/
def lossy (content : ByteArray) : List Char := Utf8.decodeLossy content.data.toList

end ScriptAssembly.Text
