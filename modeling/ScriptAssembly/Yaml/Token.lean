import ScriptAssembly.Yaml.Scalar

/-!
# YAML tokens

A text is cut into tokens.  Indentation shows as tokens that start and end block collections.  That
a node is a key is known only at the colon behind it, so until then its place among the tokens is
remembered: a key stands in one line and has at most 1024 characters.
-/

namespace ScriptAssembly.Yaml

/-- A token of a text. -/
inductive Token where
  /-- A directive on the version of the format. -/
  | version (major minor : Nat)
  /-- A directive that a handle stands for the start of tags. -/
  | handle (handle start : String)
  /-- A document starts. -/
  | documentStart
  /-- A document ends. -/
  | documentEnd
  /-- The text ends. -/
  | streamEnd
  /-- An indented sequence starts. -/
  | blockSequence
  /-- An indented mapping starts. -/
  | blockMapping
  /-- An indented collection ends. -/
  | blockEnd
  | openBracket
  | closeBracket
  | openBrace
  | closeBrace
  | comma
  /-- An entry of an indented sequence. -/
  | entry
  /-- A key follows. -/
  | key
  /-- A value follows. -/
  | value
  | alias (name : String)
  | anchor (name : String)
  | tag (handle suffix : String)
  | scalar (style : Style) (text : String)
deriving DecidableEq

/-- A node that may turn out to be a key. -/
structure PossibleKey where
  /-- How many tokens stand before it. -/
  place : Nat
  /-- Where it begins. -/
  start : Cursor
  /-- It has to be a key. -/
  isRequired : Bool

/-- What is known between two tokens. -/
structure Scan where
  /-- Where the next token is looked for. -/
  cursor : Cursor
  /-- The tokens found so far. -/
  tokens : Array Token := #[]
  /-- The columns of the open block collections, the innermost first. -/
  columns : List Nat := []
  /-- The possible key in each open bracket or brace, the innermost first, and outside of them. -/
  keys : List (Option PossibleKey) := [none]
  /-- A node that starts here may be a key. -/
  mayBeKey : Bool := true

namespace Scan

/-- The scan is inside brackets or braces. -/
def inFlow (scan : Scan) : Bool := 1 < scan.keys.length

/-- The column behind that of the innermost block collection: what is in it stands there or further
to the right. -/
def inner (scan : Scan) : Nat := (scan.columns.head?.map (· + 1)).getD 0

/-- The scan with a token at the end. -/
def push (scan : Scan) (token : Token) : Scan := { scan with tokens := scan.tokens.push token }

/-- The scan with a token behind the first `place` tokens. -/
def insert (scan : Scan) (place : Nat) (token : Token) : Scan :=
  let before := scan.tokens.extract 0 place
  { scan with tokens := before.push token ++ scan.tokens.extract place scan.tokens.size }

/-- The scan with its cursor elsewhere. -/
def moveTo (scan : Scan) (cursor : Cursor) : Scan := { scan with cursor }

/-- The scan with a sign of `length` characters read as a token. -/
def take (scan : Scan) (length : Nat) (token : Token) : Scan :=
  (scan.push token).moveTo (scan.cursor.advance length)

/-- The scan with another decision on whether a key may start. -/
def allowKey (scan : Scan) (mayBeKey : Bool) : Scan := { scan with mayBeKey }

/-- The innermost possible key is too far behind to be one. -/
def isStale (scan : Scan) (key : PossibleKey) : Bool :=
  key.start.line < scan.cursor.line || key.start.index + 1024 < scan.cursor.index

/-- The innermost possible key is none after all. -/
def dropKey (scan : Scan) : Option Scan :=
  match scan.keys with
  | some key :: keys => if key.isRequired then none else some { scan with keys := none :: keys }
  | _ => some scan

/-- The node that starts at the cursor is a possible key, if a key may start there.  Where a key of
the innermost block collection would stand, it has to be one. -/
def noteKey (scan : Scan) : Option Scan :=
  if scan.mayBeKey then do
    let isRequired := !scan.inFlow && scan.columns.head? = some scan.cursor.column
    let scan ← scan.dropKey
    return { scan with
      keys := some ⟨scan.tokens.size, scan.cursor, isRequired⟩ :: scan.keys.tail }
  else some scan

/-- A block collection starts in a column, behind the first `place` tokens, unless the innermost one
reaches as far. -/
def openBlock (scan : Scan) (column place : Nat) (token : Token) : Scan :=
  if scan.inFlow ∨ column < scan.inner then scan
  else { scan.insert place token with columns := column :: scan.columns }

/-- The block collections from `columns` on that stand to the right of `column` end. -/
def closeFrom (column : Nat) : List Nat → Scan → Scan
  | [], scan => { scan with columns := [] }
  | own :: outer, scan =>
    if column < own then closeFrom column outer (scan.push .blockEnd)
    else { scan with columns := own :: outer }

/-- The block collections that stand to the right of `column` end. -/
def closeBlocks (scan : Scan) (column : Nat) : Scan :=
  if scan.inFlow then scan else closeFrom column scan.columns scan

/-- All block collections end. -/
def closeAllBlocks (scan : Scan) : Scan :=
  if scan.inFlow then scan
  else
    let ended := scan.columns.foldl (fun scan _ => scan.push .blockEnd) scan
    { ended with columns := [] }

/-- Skips blanks, comments and line ends in at most `steps` steps.  A tab is skipped only where it
is no indentation. -/
def skipGap : Nat → Scan → Scan
  | 0, scan => scan
  | steps + 1, scan =>
    let cursor := scan.cursor
    let cursor :=
      if cursor.column = 0 ∧ cursor.isAt byteOrderMark then cursor.advance 1 else cursor
    let mayTab := scan.inFlow || !scan.mayBeKey
    let (_, cursor) := cursor.takeWhile fun c => c = ' ' || (mayTab && c = '\t')
    let (_, cursor) :=
      if cursor.isAt '#' then cursor.takeWhile fun c => !isBreak c else ([], cursor)
    if cursor.rest.head?.any isBreak then
      let scan := scan.moveTo cursor.takeBreak.2
      skipGap steps (if scan.inFlow then scan else scan.allowKey true)
    else scan.moveTo cursor

/-- The number at the cursor, of at most nine digits. -/
def number (cursor : Cursor) : Option (Nat × Cursor) :=
  let (digits, cursor) := cursor.takeWhile Char.isDigit
  if digits.length ≤ 9 then (String.ofList digits).toNat?.map fun n => (n, cursor) else none

/-- The end of a directive: nothing but a comment may follow in the line. -/
def endDirective (cursor : Cursor) : Option Cursor :=
  let (_, cursor) := cursor.takeWhile isBlank
  let (_, cursor) := if cursor.isAt '#' then cursor.takeWhile fun c => !isBreak c else ([], cursor)
  if cursor.isAtEnd then some cursor.takeBreak.2 else none

/-- A character of a tag that stands for itself; some stand only in tags between angle brackets. -/
def isTagChar (inBrackets : Bool) (c : Char) : Bool :=
  isWordChar c || ";/?:@&=+$.!~*'()".toList.contains c ||
    (inBrackets && [',', '[', ']'].contains c)

/-- How many bytes the UTF-8 form has that starts with a byte. -/
def utf8Length (lead : Nat) : Nat :=
  if lead < 0x80 then 1
  else if lead / 32 = 6 then 2
  else if lead / 16 = 14 then 3
  else if lead / 8 = 30 then 4
  else 0

/-- The bytes of escapes at the start of a text, each a percent sign and two digits. -/
def escapedBytes : Nat → List Char → Option (List Nat)
  | 0, _ => some []
  | count + 1, s => do
    if s.head? ≠ some '%' then none
    let n ← Scalar.hexValue? 2 s.tail
    return n :: (← escapedBytes count (s.drop 3))

/-- The character of the escapes at the start of a text and how long they are. -/
def tagEscape? (s : List Char) : Option (Char × Nat) := do
  let lead ← (← escapedBytes 1 s).head?
  let length := utf8Length lead
  if length = 0 then none
  let bytes ← escapedBytes length s
  let decoded ← String.fromUTF8? ⟨(bytes.map UInt8.ofNat).toArray⟩
  return (← decoded.toList.head?, 3 * length)

/-- The characters of a tag in at most `steps` steps. -/
def tagText (inBrackets : Bool) : Nat → Cursor → Option (List Char × Cursor)
  | 0, cursor => some ([], cursor)
  | steps + 1, cursor =>
    match cursor.rest with
    | [] => some ([], cursor)
    | c :: _ =>
      if c = '%' then do
        let (decoded, length) ← tagEscape? cursor.rest
        let (text, cursor) ← tagText inBrackets steps (cursor.advance length)
        return (decoded :: text, cursor)
      else if isTagChar inBrackets c then do
        let (text, cursor) ← tagText inBrackets steps (cursor.advance 1)
        return (c :: text, cursor)
      else some ([], cursor)

/-- The characters of a tag. -/
def readTagText (inBrackets : Bool) (cursor : Cursor) : Option (List Char × Cursor) :=
  tagText inBrackets cursor.rest.length cursor

/-- The handle at the cursor: an exclamation mark, and a word with another one if there is one. -/
def readHandle (cursor : Cursor) : Option (List Char × Cursor) :=
  if cursor.isAt '!' then
    let (word, behind) := (cursor.advance 1).takeWhile isWordChar
    if behind.isAt '!' then some ('!' :: word ++ ['!'], behind.advance 1)
    else some ('!' :: word, behind)
  else none

/-- The directive at the cursor. -/
def directive (cursor : Cursor) : Option (Token × Cursor) := do
  let (name, cursor) := (cursor.advance 1).takeWhile isWordChar
  if name = [] ∨ !startsGap cursor.rest then none
  let (blanks, cursor) := cursor.takeWhile isBlank
  if name = "YAML".toList then
    let (major, cursor) ← number cursor
    if !cursor.isAt '.' then none
    let (minor, cursor) ← number (cursor.advance 1)
    return (.version major minor, ← endDirective cursor)
  else if name = "TAG".toList ∧ blanks ≠ [] then
    let (handle, cursor) ← readHandle cursor
    if handle ≠ ['!'] ∧ (handle.length < 2 ∨ handle.getLast? ≠ some '!') then none
    let (blanks, cursor) := cursor.takeWhile isBlank
    if blanks = [] then none
    let (start, cursor) ← readTagText true cursor
    if start = [] ∨ !startsGap cursor.rest then none
    return (.handle (.ofList handle) (.ofList start), ← endDirective cursor)
  else none

/-- The handle and the suffix of the tag at the cursor; a tag in angle brackets has no handle, and
neither has the lone exclamation mark. -/
def readTag (cursor : Cursor) : Option (List Char × List Char × Cursor) := do
  if cursor.rest.tail.head? = some '<' then
    let (suffix, cursor) ← readTagText true (cursor.advance 2)
    if suffix = [] ∨ !cursor.isAt '>' then none
    return ([], suffix, cursor.advance 1)
  else
    let (handle, cursor) ← readHandle cursor
    if 1 < handle.length ∧ handle.getLast? = some '!' then
      let (suffix, cursor) ← readTagText false cursor
      if suffix = [] then none
      return (handle, suffix, cursor)
    else
      let (more, cursor) ← readTagText false cursor
      match handle.tail ++ more with
      | [] => return ([], ['!'], cursor)
      | suffix => return (['!'], suffix, cursor)

/-- The name behind the sign of an anchor or alias. -/
def readName (cursor : Cursor) : Option (String × Cursor) :=
  let (name, cursor) := (cursor.advance 1).takeWhile isWordChar
  let ends := startsGap cursor.rest ||
    cursor.rest.head?.any fun c => ['?', ':', ',', ']', '\x7d', '%', '@', '\x60'].contains c
  if name ≠ [] ∧ ends then some (.ofList name, cursor) else none

/-- A node that may be a key, read by `read` as one token; no key may start right behind it. -/
def takeNode (scan : Scan) (read : Cursor → Option (Token × Cursor)) : Option Scan := do
  let scan ← scan.noteKey
  let (token, cursor) ← read scan.cursor
  return ((scan.push token).moveTo cursor).allowKey false

/-- A bracket or brace that opens. -/
def takeOpening (scan : Scan) (token : Token) : Option Scan := do
  let scan ← scan.noteKey
  let scan := { scan with keys := none :: scan.keys }
  return (scan.allowKey true).take 1 token

/-- A bracket or brace that closes. -/
def takeClosing (scan : Scan) (token : Token) : Option Scan := do
  let scan ← scan.dropKey
  let scan := if scan.inFlow then { scan with keys := scan.keys.tail } else scan
  return (scan.allowKey false).take 1 token

/-- A sign that starts an entry of a block collection, which it opens where there is none. -/
def takeEntry (scan : Scan) (collection token : Token) (keyBehind : Bool) : Option Scan := do
  if !scan.inFlow ∧ !scan.mayBeKey then none
  let scan := scan.openBlock scan.cursor.column scan.tokens.size collection
  let scan ← scan.dropKey
  return (scan.allowKey keyBehind).take 1 token

/-- The colon in front of a value: what was a possible key becomes one. -/
def takeValue (scan : Scan) : Option Scan := do
  let complex := do
    if !scan.inFlow ∧ !scan.mayBeKey then none
    let opened := scan.openBlock scan.cursor.column scan.tokens.size .blockMapping
    return (opened.allowKey (!scan.inFlow)).take 1 .value
  match scan.keys with
  | some key :: keys =>
    if scan.isStale key then
      if key.isRequired then none
      else (complex : Option Scan).map fun next => { next with keys := none :: keys }
    else
      let opened := (scan.insert key.place .key).openBlock key.start.column key.place .blockMapping
      return ({ opened with keys := none :: keys }.allowKey false).take 1 .value
  | _ => complex

/-- Something at the start of a line that ends all block collections. -/
def takeAtMargin (scan : Scan) (read : Cursor → Option (Token × Cursor)) : Option Scan := do
  let scan ← scan.closeAllBlocks.dropKey
  let (token, cursor) ← read scan.cursor
  return ((scan.push token).moveTo cursor).allowKey false

/-- A block scalar. -/
def takeBlockScalar (scan : Scan) (literal : Bool) : Option Scan := do
  let scan ← scan.dropKey
  let (text, cursor) ← Scalar.block literal scan.inner scan.cursor
  let style := if literal then Style.literal else Style.folded
  return ((scan.push (.scalar style (.ofList text))).moveTo cursor).allowKey true

/-- A plain scalar; behind a line end a key may start. -/
def takePlain (scan : Scan) : Option Scan := do
  let scan ← scan.noteKey
  let (text, crossed, cursor) ← Scalar.plain scan.inFlow scan.inner scan.cursor
  return ((scan.push (.scalar .plain (.ofList text))).moveTo cursor).allowKey crossed

/-- The end of the text, which ends everything that is open. -/
def finish (scan : Scan) : Option Scan := do
  let scan ← scan.closeAllBlocks.dropKey
  return scan.push .streamEnd

/-- Characters that no plain scalar starts with. -/
def signs : List Char :=
  ['-', '?', ':', ',', '[', ']', '\x7b', '\x7d', '#', '&', '*', '!', '|', '>', '\'', '"', '%', '@',
    '\x60']

/-- A plain scalar starts with this text. -/
def startsPlain (inFlow : Bool) (s : List Char) : Bool :=
  match s with
  | [] => false
  | c :: rest =>
    (!isGap c && !signs.contains c) ||
      (c = '-' && !rest.head?.any isBlank) ||
      (!inFlow && (c = '?' || c = ':') && !startsGap rest)

/-- The scan behind the next token. -/
def takeToken (scan : Scan) : Option Scan :=
  let cursor := scan.cursor
  let sign := fun (token : Token) (length : Nat) (cursor : Cursor) =>
    some (token, cursor.advance length)
  let named := fun (make : String → Token) (cursor : Cursor) =>
    (readName cursor).map fun (name, cursor) => (make name, cursor)
  match cursor.rest with
  | [] => none
  | c :: rest =>
    if cursor.column = 0 ∧ c = '%' then scan.takeAtMargin directive
    else if cursor.isMarker "---" then scan.takeAtMargin (sign .documentStart 3)
    else if cursor.isMarker "..." then scan.takeAtMargin (sign .documentEnd 3)
    else if c = '[' then scan.takeOpening .openBracket
    else if c = '\x7b' then scan.takeOpening .openBrace
    else if c = ']' then scan.takeClosing .closeBracket
    else if c = '\x7d' then scan.takeClosing .closeBrace
    else if c = ',' then do
      let scan ← scan.dropKey
      return (scan.allowKey true).take 1 .comma
    else if c = '-' ∧ startsGap rest then scan.takeEntry .blockSequence .entry true
    else if c = '?' ∧ (scan.inFlow ∨ startsGap rest) then
      scan.takeEntry .blockMapping .key (!scan.inFlow)
    else if c = ':' ∧ (scan.inFlow ∨ startsGap rest) then scan.takeValue
    else if c = '*' then scan.takeNode (named .alias)
    else if c = '&' then scan.takeNode (named .anchor)
    else if c = '!' then scan.takeNode fun cursor => do
      let (handle, suffix, cursor) ← readTag cursor
      if startsGap cursor.rest ∨ (scan.inFlow ∧ cursor.isAt ',') then
        return (.tag (.ofList handle) (.ofList suffix), cursor)
      else none
    else if c = '|' ∧ !scan.inFlow then scan.takeBlockScalar true
    else if c = '>' ∧ !scan.inFlow then scan.takeBlockScalar false
    else if c = '\'' then scan.takeNode fun cursor =>
      (Scalar.quoted false cursor).map fun (text, cursor) =>
        (.scalar .singleQuoted (.ofList text), cursor)
    else if c = '"' then scan.takeNode fun cursor =>
      (Scalar.quoted true cursor).map fun (text, cursor) =>
        (.scalar .doubleQuoted (.ofList text), cursor)
    else if startsPlain scan.inFlow (c :: rest) then scan.takePlain
    else none

/-- Some possible key that has to be one is too far behind. -/
def hasLostKey (scan : Scan) : Bool :=
  scan.keys.any fun key => key.any fun key => key.isRequired && scan.isStale key

/-- The tokens from a scan on, of which there are at most `steps`. -/
def tokensFrom : Nat → Scan → Option (List Token)
  | 0, _ => none
  | steps + 1, scan => do
    let scan := scan.skipGap (scan.cursor.rest.length + 1)
    if scan.hasLostKey then none
    let scan := scan.closeBlocks scan.cursor.column
    if scan.cursor.rest.isEmpty then
      return (← scan.finish).tokens.toList
    else tokensFrom steps (← scan.takeToken)

end Scan

/-- The tokens of a text. -/
def Token.ofText? (text : List Char) : Option (List Token) :=
  let text := if text.head? = some byteOrderMark then text.tail else text
  if text.all isAllowed then
    Scan.tokensFrom (text.length + 1) { cursor := { rest := text } }
  else none

end ScriptAssembly.Yaml
