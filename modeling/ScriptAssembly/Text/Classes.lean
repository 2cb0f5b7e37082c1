import ScriptAssembly.Text.DigitRanges
import ScriptAssembly.Text.WordRanges
import ScriptAssembly.Text.HiddenRanges

/-!
# Character classes

The classes of characters that the line rules are stated with: blanks, decimal digits, word
characters and characters that a quoted text writes as an escape.  All four follow Unicode.
-/

namespace ScriptAssembly.Text

/-- The character lies in one of the closed ranges. -/
def inRanges (ranges : List (Nat × Nat)) (c : Char) : Bool :=
  ranges.any fun range => range.1 ≤ c.toNat && c.toNat ≤ range.2

/-- Code points of the white space characters. -/
def blankRanges : List (Nat × Nat) := [
  (0x9, 0xD), (0x20, 0x20), (0x85, 0x85), (0xA0, 0xA0), (0x1680, 0x1680), (0x2000, 0x200A),
  (0x2028, 0x2029), (0x202F, 0x202F), (0x205F, 0x205F), (0x3000, 0x3000)]

/-- White space, line breaks included. -/
def isBlank (c : Char) : Bool := inRanges blankRanges c

/-- A decimal digit of any script. -/
def isDigit (c : Char) : Bool :=
  if c.toNat < 0x80 then c.isDigit else inRanges digitRanges c

/-- A character that may stand inside a word. -/
def isWord (c : Char) : Bool :=
  if c.toNat < 0x80 then c.isAlphanum || c == '_' else inRanges wordRanges c

/-- A character that a quoted text shows as an escape: it does not print by itself. -/
def isHidden (c : Char) : Bool :=
  if c.toNat < 0x80 then c.toNat < 0x20 || c.toNat == 0x7F else inRanges hiddenRanges c

end ScriptAssembly.Text
