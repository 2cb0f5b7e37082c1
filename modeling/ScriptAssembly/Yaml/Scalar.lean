import ScriptAssembly.Yaml.Cursor

/-!
# YAML scalars

The texts of scalars in their five styles.  Line ends inside plain and quoted scalars and in folded
blocks are folded: a single one becomes a blank, and of several the first is dropped.
-/

namespace ScriptAssembly.Yaml

/-- How a scalar is written. -/
inductive Style where
  | plain
  | singleQuoted
  | doubleQuoted
  | literal
  | folded
deriving DecidableEq, Repr

/-- What stands between two words of a scalar: blanks in one line, or line ends. -/
structure Gap where
  /-- The blanks, if the gap is inside a line. -/
  blanks : List Char := []
  /-- The line ends, each as it is kept. -/
  breaks : List Char := []
  /-- The gap goes over a line end. -/
  crosses : Bool := false

namespace Gap

/-- The text that a gap becomes. -/
def text (gap : Gap) : List Char :=
  match gap.breaks with
  | [] => gap.blanks
  | '\n' :: [] => [' ']
  | '\n' :: more => more
  | breaks => breaks

/-- Reads a gap, in at most `steps` steps, behind what has been read of it.  A tab that indents a
line to less than `limit` is refused. -/
def readFrom (limit : Nat) : Nat → Gap → Cursor → Option (Gap × Cursor)
  | 0, gap, cursor => some (gap, cursor)
  | steps + 1, gap, cursor =>
    match cursor.rest with
    | [] => some (gap, cursor)
    | c :: _ =>
      if isBlank c then
        if gap.crosses then
          if c = '\t' ∧ cursor.column < limit then none
          else readFrom limit steps gap (cursor.advance 1)
        else readFrom limit steps { gap with blanks := gap.blanks ++ [c] } (cursor.advance 1)
      else if isBreak c then
        let (kept, cursor) := cursor.takeBreak
        readFrom limit steps ⟨[], gap.breaks ++ kept, true⟩ cursor
      else some (gap, cursor)

/-- Reads the gap at a cursor. -/
def read (limit : Nat) (cursor : Cursor) : Option (Gap × Cursor) :=
  readFrom limit cursor.rest.length {} cursor

/-- The text of the gap behind an escaped line end: all line ends after that one. -/
def readEscaped (cursor : Cursor) : Option (List Char × Cursor) :=
  (readFrom 0 cursor.rest.length ⟨[], [], true⟩ cursor).map fun (gap, cursor) =>
    (gap.breaks, cursor)

end Gap

namespace Scalar

/-- The value of a hexadecimal digit. -/
def hexDigit? (c : Char) : Option Nat :=
  if c.isDigit then some (c.toNat - '0'.toNat)
  else if 'a' ≤ c ∧ c ≤ 'f' then some (c.toNat - 'a'.toNat + 10)
  else if 'A' ≤ c ∧ c ≤ 'F' then some (c.toNat - 'A'.toNat + 10)
  else none

/-- The value of `count` hexadecimal digits at the start of a text. -/
def hexValue? (count : Nat) (s : List Char) : Option Nat := do
  let digits ← (s.take count).mapM hexDigit?
  if digits.length = count then some (digits.foldl (fun n digit => n * 16 + digit) 0) else none

/-- The character that a letter behind a backslash stands for. -/
def shortEscape? (c : Char) : Option Char :=
  match c with
  | '0' => some '\x00'
  | 'a' => some '\x07'
  | 'b' => some '\x08'
  | 't' | '\t' => some '\t'
  | 'n' => some '\n'
  | 'v' => some '\x0b'
  | 'f' => some '\x0c'
  | 'r' => some '\r'
  | 'e' => some '\x1b'
  | ' ' => some ' '
  | '"' => some '"'
  | '/' => some '/'
  | '\\' => some '\\'
  | 'N' => some '\u0085'
  | '_' => some '\u00A0'
  | 'L' => some '\u2028'
  | 'P' => some '\u2029'
  | _ => none

/-- How many digits follow a letter behind a backslash that gives the code of a character. -/
def codeLength? (c : Char) : Option Nat :=
  match c with
  | 'x' => some 2
  | 'u' => some 4
  | 'U' => some 8
  | _ => none

/-- The character of the escape behind a backslash, and how long the escape is there. -/
def escape? (s : List Char) : Option (Char × Nat) := do
  match s with
  | [] => none
  | c :: rest =>
    match codeLength? c with
    | some count =>
      let n ← hexValue? count rest
      if n.isValidChar then some (Char.ofNat n, count + 1) else none
    | none => (shortEscape? c).map fun decoded => (decoded, 1)

/-- The text of a quoted scalar from behind its opening quote, or from any place inside, and the
cursor behind the closing quote. -/
def quotedFrom (double : Bool) : Nat → Cursor → Option (List Char × Cursor)
  | 0, _ => none
  | steps + 1, cursor =>
    let goOn := fun (before : List Char) (cursor : Cursor) =>
      (quotedFrom double steps cursor).map fun (text, cursor) => (before ++ text, cursor)
    if cursor.isDocumentMarker then none
    else
      match cursor.rest with
      | [] => none
      | c :: rest =>
        if isGap c then do
          let (gap, cursor) ← Gap.read 0 cursor
          goOn gap.text cursor
        else if c = '\'' ∧ !double then
          if rest.head? = some '\'' then goOn ['\''] (cursor.advance 2)
          else some ([], cursor.advance 1)
        else if c = '"' ∧ double then some ([], cursor.advance 1)
        else if c = '\\' ∧ double then
          if rest.head?.any isBreak then do
            let (text, cursor) ← Gap.readEscaped (cursor.advance 1).takeBreak.2
            goOn text cursor
          else do
            let (decoded, length) ← escape? rest
            goOn [decoded] (cursor.advance (length + 1))
        else goOn [c] (cursor.advance 1)

/-- The text of the quoted scalar whose opening quote is at the cursor. -/
def quoted (double : Bool) (cursor : Cursor) : Option (List Char × Cursor) :=
  quotedFrom double (cursor.rest.length + 1) (cursor.advance 1)

/-- A character that ends a plain scalar inside brackets or braces. -/
def isFlowEnd (c : Char) : Bool := [',', '[', ']', '\x7b', '\x7d'].contains c

/-- A word of a plain scalar.  Inside brackets or braces a colon must not stand in front of another
sign of those. -/
def plainWord (inFlow : Bool) : List Char → Option (List Char)
  | [] => some []
  | c :: rest =>
    if isGap c then some []
    else if inFlow ∧ c = ':' ∧ rest.head?.any fun next => next = '?' || isFlowEnd next then none
    else if (c = ':' ∧ startsGap rest) ∨ (inFlow ∧ isFlowEnd c) then some []
    else (plainWord inFlow rest).map (c :: ·)

/-- The text of a plain scalar from the gap before a word on, and whether its last gap, which
belongs to no word, goes over a line end.  Outside of brackets and braces its lines are indented to
at least `limit`. -/
def plainFrom (inFlow : Bool) (limit : Nat) : Nat → Gap → Cursor →
    Option (List Char × Bool × Cursor)
  | 0, gap, cursor => some ([], gap.crosses, cursor)
  | steps + 1, gap, cursor =>
    if cursor.isDocumentMarker ∨ cursor.isAt '#' then some ([], gap.crosses, cursor)
    else do
      let word ← plainWord inFlow cursor.rest
      if word = [] then return ([], gap.crosses, cursor)
      let before := gap.text ++ word
      let (next, behind) ← Gap.read limit (cursor.advance word.length)
      if next.blanks = [] ∧ !next.crosses then return (before, false, behind)
      else if !inFlow ∧ behind.column < limit then return (before, next.crosses, behind)
      else
        let (text, crossed, cursor) ← plainFrom inFlow limit steps next behind
        return (before ++ text, crossed, cursor)

/-- The text of the plain scalar at the cursor. -/
def plain (inFlow : Bool) (limit : Nat) (cursor : Cursor) : Option (List Char × Bool × Cursor) :=
  plainFrom inFlow limit (cursor.rest.length + 1) {} cursor

/-- What becomes of the line ends behind a block. -/
inductive Chomping where
  /-- They are dropped. -/
  | strip
  /-- One is kept. -/
  | clip
  /-- All are kept. -/
  | keep
deriving DecidableEq

/-- The chomping that a sign asks for. -/
def chomping? (c : Char) : Option Chomping :=
  if c = '+' then some .keep else if c = '-' then some .strip else none

/-- The indentation that a digit asks for. -/
def indentation? (c : Char) : Option Nat :=
  if c.isDigit then some (c.toNat - '0'.toNat) else none

/-- The chomping and the indentation in the header of a block, in either order. -/
def header (cursor : Cursor) : Option (Chomping × Option Nat × Cursor) :=
  let first := cursor.rest.head?
  let second := cursor.rest.tail.head?
  let (chomping, digit, length) :=
    match first.bind chomping?, first.bind indentation? with
    | some chomping, _ =>
      match second.bind indentation? with
      | some n => (chomping, some n, 2)
      | none => (chomping, none, 1)
    | none, some n =>
      match second.bind chomping? with
      | some chomping => (chomping, some n, 2)
      | none => (.clip, some n, 1)
    | none, none => (.clip, none, 0)
  if digit = some 0 then none else some (chomping, digit, cursor.advance length)

/-- The empty lines before a line of a block, the greatest indentation among them, and the cursor at
the line; an indentation of `none` is not known yet. -/
def emptyLines (indent : Option Nat) : Nat → Nat → Cursor → Option (List Char × Nat × Cursor)
  | 0, deepest, cursor => some ([], deepest, cursor)
  | steps + 1, deepest, cursor =>
    let blanks := (cursor.rest.takeWhile (· = ' ')).length
    let taken := indent.elim blanks fun indent => min blanks (indent - cursor.column)
    let cursor := cursor.advance taken
    let deepest := max deepest cursor.column
    if cursor.isAt '\t' ∧ indent.all (cursor.column < ·) then none
    else if cursor.rest.head?.any isBreak then do
      let (kept, cursor) := cursor.takeBreak
      let (breaks, deepest, cursor) ← emptyLines indent steps deepest cursor
      return (kept ++ breaks, deepest, cursor)
    else some ([], deepest, cursor)

/-- The text of the lines of a block and the line ends behind it: the first one and the others.
`firstBreak` and `breaks` are the line ends before, and `indented` tells whether the line before
starts with a blank. -/
def blockLines (literal : Bool) (indent : Nat) : Nat → List Char → List Char → Bool → Cursor →
    Option (List Char × List Char × List Char × Cursor)
  | 0, firstBreak, breaks, _, cursor => some ([], firstBreak, breaks, cursor)
  | steps + 1, firstBreak, breaks, indented, cursor =>
    if cursor.column ≠ indent ∨ cursor.rest.isEmpty then some ([], firstBreak, breaks, cursor)
    else do
      let nowIndented := cursor.rest.head?.any isBlank
      let gap :=
        if !literal ∧ firstBreak.head? = some '\n' ∧ !indented ∧ !nowIndented then
          if breaks = [] then [' '] else breaks
        else firstBreak ++ breaks
      let (text, cursor) := cursor.takeWhile fun c => !isBreak c
      let (nextBreak, cursor) := cursor.takeBreak
      let (nextBreaks, _, cursor) ← emptyLines (some indent) (cursor.rest.length + 1) 0 cursor
      let (more, lastBreak, lastBreaks, cursor) ←
        blockLines literal indent steps nextBreak nextBreaks nowIndented cursor
      return (gap ++ text ++ more, lastBreak, lastBreaks, cursor)

/-- The text of the block scalar whose sign is at the cursor, inside a collection whose entries
stand at the column before `outer`. -/
def block (literal : Bool) (outer : Nat) (cursor : Cursor) : Option (List Char × Cursor) := do
  let (chomping, digit, cursor) ← header (cursor.advance 1)
  let (_, cursor) := cursor.takeWhile isBlank
  let (_, cursor) := if cursor.isAt '#' then cursor.takeWhile fun c => !isBreak c else ([], cursor)
  if !cursor.isAtEnd then none
  let (_, cursor) := cursor.takeBreak
  let known := digit.map fun digit => (outer - 1) + digit
  let (breaks, deepest, cursor) ← emptyLines known (cursor.rest.length + 1) 0 cursor
  let indent := known.getD (max deepest (max outer 1))
  let (text, lastBreak, lastBreaks, cursor) ←
    blockLines literal indent (cursor.rest.length + 1) [] breaks false cursor
  let tail :=
    match chomping with
    | .strip => []
    | .clip => lastBreak
    | .keep => lastBreak ++ lastBreaks
  return (text ++ tail, cursor)

end Scalar

end ScriptAssembly.Yaml
