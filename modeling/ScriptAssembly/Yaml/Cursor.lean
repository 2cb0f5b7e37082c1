/-!
# Reading YAML texts

Classes of characters, and the place in a text that a reader has come to.  A line ends at a line
feed, at a carriage return with or without a line feed, and at the three other line ends of Unicode.
-/

namespace ScriptAssembly.Yaml

/-- A character that ends a line. -/
def isBreak (c : Char) : Bool :=
  c = '\n' || c = '\r' || c = '\u0085' || c = '\u2028' || c = '\u2029'

/-- A blank inside a line. -/
def isBlank (c : Char) : Bool := c = ' ' || c = '\t'

/-- A blank or the end of a line. -/
def isGap (c : Char) : Bool := isBlank c || isBreak c

/-- The text starts with a blank or the end of a line, or is at its end. -/
def startsGap (s : List Char) : Bool := s.head?.all isGap

/-- A character of names and anchors. -/
def isWordChar (c : Char) : Bool := c.isAlphanum || c = '_' || c = '-'

/-- The mark that may stand in front of a text. -/
def byteOrderMark : Char := '\uFEFF'

/-- A character that may stand in a text. -/
def isAllowed (c : Char) : Bool :=
  let n := c.toNat
  n = 0x09 || n = 0x0A || n = 0x0D || (0x20 ≤ n && n ≤ 0x7E) || n = 0x85 ||
    (0xA0 ≤ n && n ≤ 0xD7FF) || (0xE000 ≤ n && n ≤ 0xFFFD) || 0x10000 ≤ n

/-- A place in a text. -/
structure Cursor where
  /-- The text from there on. -/
  rest : List Char
  /-- The number of characters before. -/
  index : Nat := 0
  /-- The number of lines before. -/
  line : Nat := 0
  /-- The number of characters before in the line. -/
  column : Nat := 0

namespace Cursor

/-- The place behind the next `count` characters, which are all in one line. -/
def advance (cursor : Cursor) (count : Nat) : Cursor where
  rest := cursor.rest.drop count
  index := cursor.index + count
  line := cursor.line
  column := cursor.column + count

/-- The place behind characters that are of a class, all in one line, and these characters. -/
def takeWhile (cursor : Cursor) (isMember : Char → Bool) : List Char × Cursor :=
  let taken := cursor.rest.takeWhile isMember
  (taken, cursor.advance taken.length)

/-- The line end at the cursor as scalars keep it, and the start of the next line. -/
def takeBreak (cursor : Cursor) : List Char × Cursor :=
  let next := fun (kept : List Char) (length : Nat) =>
    (kept, { rest := cursor.rest.drop length, index := cursor.index + length,
             line := cursor.line + 1, column := 0 : Cursor })
  match cursor.rest with
  | '\r' :: '\n' :: _ => next ['\n'] 2
  | c :: _ =>
    if c = '\u2028' ∨ c = '\u2029' then next [c] 1
    else if isBreak c then next ['\n'] 1
    else ([], cursor)
  | [] => ([], cursor)

/-- The text goes on with `word` and a gap behind it, at the start of a line. -/
def isMarker (cursor : Cursor) (word : String) : Bool :=
  cursor.column = 0 && word.toList.isPrefixOf cursor.rest &&
    startsGap (cursor.rest.drop word.length)

/-- A document starts or ends here. -/
def isDocumentMarker (cursor : Cursor) : Bool := cursor.isMarker "---" || cursor.isMarker "..."

/-- The character at the cursor, if there is one, is `c`. -/
def isAt (cursor : Cursor) (c : Char) : Bool := cursor.rest.head? = some c

/-- The cursor is at the end of a line or of the text. -/
def isAtEnd (cursor : Cursor) : Bool := cursor.rest.head?.all isBreak

end Cursor

end ScriptAssembly.Yaml
