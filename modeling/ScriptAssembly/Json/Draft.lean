import ScriptAssembly.Json.Value

/-!
# Reading a JSON text

A text is read into a `Draft`: the value as far as it goes, with the fault at the place where the
text goes wrong.  Whether a fault counts depends on how a part is used.  A part that is decoded
must be sound in every respect, while a part that is skipped need only follow the grammar, so a
number that is too large or an unpaired surrogate is no fault there.  `ofText` makes one draft for
both uses and leaves the choice to the decoder.
-/

namespace ScriptAssembly.Json

/-- What is wrong with a JSON text. -/
inductive Fault where
  /-- A character that cannot stand at its place, or a value that no text may denote. -/
  | malformed
  /-- The text ends too early. -/
  | unfinished
deriving DecidableEq, Repr

/-- How the items of an array end. -/
inductive ArrayEnd where
  /-- With the closing bracket. -/
  | closed
  /-- The text ends where a comma or the bracket should stand. -/
  | cut
  /-- A comma with no item behind it. -/
  | comma (fault : Fault)
  /-- Something else stands where a comma or the bracket should. -/
  | junk
deriving DecidableEq, Repr

/-- A value as far as the text goes. -/
inductive Draft where
  /-- A part that breaks the grammar: the fault met when it is decoded and the one met when it is
  skipped. -/
  | broken (read skip : Fault)
  | null
  | bool (value : Bool)
  /-- A numeral and its value. -/
  | number (value : Except Fault Number)
  /-- A quoted string and its text. -/
  | string (text : Except Fault String)
  | array (items : List Draft) (ending : ArrayEnd)
  /-- The members that have a name; `ending` tells what follows them: nothing, if the object is
  closed, else the faults met when decoding and when skipping.  Where the first member starts with
  a value instead of a name, `stray` holds that value. -/
  | object (members : List (Except Fault String × Draft)) (stray : Option Draft)
      (ending : Option (Fault × Fault))

namespace Draft

instance : Inhabited Draft := ⟨.null⟩

/-- A part at which both uses meet the same fault. -/
def fault (f : Fault) : Draft := .broken f f

/-- A blank between the tokens of a JSON text. -/
def isGap (c : Char) : Bool := c = ' ' || c = '\n' || c = '\t' || c = '\r'

/-- The text without the blanks in front. -/
def dropGap (s : List Char) : List Char := s.dropWhile isGap

/-- What follows the word that the text should go on with. -/
def wordAt : List Char → List Char → Except Fault (List Char)
  | [], rest => .ok rest
  | _ :: _, [] => .error .unfinished
  | w :: word, c :: rest => if w = c then wordAt word rest else .error .malformed

/-- The value of a hexadecimal digit. -/
def hexValue? (c : Char) : Option Nat :=
  if c.isDigit then some (c.toNat - '0'.toNat)
  else if 'a' ≤ c ∧ c ≤ 'f' then some (c.toNat - 'a'.toNat + 10)
  else if 'A' ≤ c ∧ c ≤ 'F' then some (c.toNat - 'A'.toNat + 10)
  else none

/-- The number of bytes of a text. -/
def byteLength (s : List Char) : Nat := s.foldl (fun size c => size + c.utf8Size) 0

/-- The code unit written in four hexadecimal digits; a text of fewer than four bytes ends too
early. -/
def unitAt (s : List Char) : Except Fault (Nat × List Char) :=
  match s with
  | a :: b :: c :: d :: rest =>
    match hexValue? a, hexValue? b, hexValue? c, hexValue? d with
    | some a, some b, some c, some d => .ok (((a * 16 + b) * 16 + c) * 16 + d, rest)
    | _, _, _, _ => .error .malformed
  | s => if byteLength s < 4 then .error .unfinished else .error .malformed

/-- The character that a short escape stands for. -/
def shortEscape? (c : Char) : Option Char :=
  match c with
  | '"' => some '"'
  | '\\' => some '\\'
  | '/' => some '/'
  | 'b' => some '\x08'
  | 'f' => some '\x0c'
  | 'n' => some '\n'
  | 'r' => some '\r'
  | 't' => some '\t'
  | _ => none

/-- The unit is the first or the second half of a surrogate pair. -/
def isSurrogate (unit : Nat) : Bool := 0xD800 ≤ unit && unit ≤ 0xDFFF

/-- The second half of a pair, after the first half `high`. -/
def lowSurrogateAt (high : Nat) (s : List Char) : Except Fault (Char × List Char) :=
  match s with
  | [] | ['\\'] => .error .unfinished
  | '\\' :: 'u' :: rest =>
    match unitAt rest with
    | .error f => .error f
    | .ok (low, rest) =>
      if 0xDC00 ≤ low ∧ low ≤ 0xDFFF then
        .ok (Char.ofNat ((high - 0xD800) * 0x400 + (low - 0xDC00) + 0x10000), rest)
      else .error .malformed
  | _ => .error .malformed

/-- The character written as an escape behind a backslash. -/
def escapeAt (s : List Char) : Except Fault (Char × List Char) :=
  match s with
  | [] => .error .unfinished
  | 'u' :: rest =>
    match unitAt rest with
    | .error f => .error f
    | .ok (unit, rest) =>
      if !isSurrogate unit then .ok (Char.ofNat unit, rest)
      else if unit < 0xDC00 then lowSurrogateAt unit rest
      else .error .malformed
  | c :: rest =>
    match shortEscape? c with
    | some c => .ok (c, rest)
    | none => .error .malformed

/-- What follows an escape, whether or not it denotes a character. -/
def skipEscape (s : List Char) : Except Fault (List Char) :=
  match s with
  | [] => .error .unfinished
  | 'u' :: rest => (unitAt rest).map Prod.snd
  | c :: rest => if (shortEscape? c).isSome then .ok rest else .error .malformed

/-- The text of a string behind its opening quote, read in `fuel` steps. -/
def stringFrom : Nat → List Char → Except Fault (List Char)
  | 0, _ | _, [] => .error .unfinished
  | fuel + 1, c :: rest =>
    if c = '"' then .ok []
    else if c = '\\' then
      match escapeAt rest with
      | .error f => .error f
      | .ok (c, rest) => (stringFrom fuel rest).map (c :: ·)
    else if c.toNat < 0x20 then .error .malformed
    else (stringFrom fuel rest).map (c :: ·)

/-- What follows the closing quote of a string, looked for in `fuel` steps. -/
def skipStringFrom : Nat → List Char → Except Fault (List Char)
  | 0, _ | _, [] => .error .unfinished
  | fuel + 1, c :: rest =>
    if c = '"' then .ok rest
    else if c = '\\' then
      match skipEscape rest with
      | .error f => .error f
      | .ok rest => skipStringFrom fuel rest
    else if c.toNat < 0x20 then .error .malformed
    else skipStringFrom fuel rest

/-- The text of the string whose opening quote stands in front of `s`. -/
def stringAt (s : List Char) : Except Fault String :=
  (stringFrom (s.length + 1) s).map .ofList

/-- What follows the string whose opening quote stands in front of `s`. -/
def skipString (s : List Char) : Except Fault (List Char) := skipStringFrom (s.length + 1) s

/-- The value of an ASCII digit. -/
def digit (c : Char) : Nat := c.toNat - '0'.toNat

/-- One or more digits at the start of the text. -/
def digitsAt (s : List Char) : Except Fault (List Nat × List Char) :=
  match s with
  | [] => .error .unfinished
  | c :: _ =>
    if c.isDigit then .ok ((s.takeWhile Char.isDigit).map digit, s.dropWhile Char.isDigit)
    else .error .malformed

/-- The digits before the point: a zero stands alone. -/
def wholeAt (s : List Char) : Except Fault (List Nat × List Char) :=
  match s with
  | '0' :: c :: rest => if c.isDigit then .error .malformed else .ok ([0], c :: rest)
  | s => digitsAt s

/-- The digits behind a point, if there is one. -/
def fractionAt (s : List Char) : Except Fault (Option (List Nat) × List Char) :=
  match s with
  | '.' :: rest => (digitsAt rest).map fun (digits, rest) => (some digits, rest)
  | s => .ok (none, s)

/-- The sign and the digits of an exponent, if there is one. -/
def exponentAt (s : List Char) : Except Fault (Option (Bool × List Nat) × List Char) :=
  let signed := fun (rest : List Char) =>
    match rest with
    | '+' :: rest => (digitsAt rest).map fun (digits, rest) => (some (false, digits), rest)
    | '-' :: rest => (digitsAt rest).map fun (digits, rest) => (some (true, digits), rest)
    | rest => (digitsAt rest).map fun (digits, rest) => (some (false, digits), rest)
  match s with
  | 'e' :: rest => signed rest
  | 'E' :: rest => signed rest
  | s => .ok (none, s)

/-- The numeral at the start of the text. -/
def numeralAt (s : List Char) : Except Fault (Numeral × List Char) := do
  let (negative, s) := match s with
    | '-' :: rest => (true, rest)
    | s => (false, s)
  let (whole, s) ← wholeAt s
  let (fraction, s) ← fractionAt s
  let (exponent, s) ← exponentAt s
  return (⟨negative, whole, fraction, exponent⟩, s)

/-- A leaf at the start of the text, with the text behind it unless the grammar is broken. -/
def leafAt (s : List Char) : Draft × Option (List Char) :=
  let word := fun (word : String) (value : Draft) =>
    match wordAt word.toList s with
    | .ok rest => (value, some rest)
    | .error f => (fault f, none)
  match s with
  | [] => (fault .unfinished, none)
  | '"' :: rest =>
    match skipString rest with
    | .ok behind => (.string (stringAt rest), some behind)
    | .error skip =>
      match stringAt rest with
      | .error read => (.broken read skip, none)
      | .ok _ => (fault skip, none)
  | c :: _ =>
    if c = 'n' then word "null" .null
    else if c = 't' then word "true" (.bool true)
    else if c = 'f' then word "false" (.bool false)
    else if c = '-' || c.isDigit then
      match numeralAt s with
      | .ok (n, rest) => (.number (n.value?.elim (.error .malformed) .ok), some rest)
      | .error read => (.broken read .malformed, none)
    else (fault .malformed, none)

mutual

/-- The value at the start of the text and the text behind it, read in `fuel` steps. -/
def valueAt : Nat → List Char → Draft × Option (List Char)
  | 0, _ => (fault .unfinished, none)
  | fuel + 1, s =>
    match dropGap s with
    | '[' :: rest =>
      let (items, ending, behind) := itemsAt fuel true rest
      (.array items ending, behind)
    | '{' :: rest => membersAt fuel [] rest
    | s => leafAt s

/-- The items of an array; `first` holds in front of the first one. -/
def itemsAt : Nat → Bool → List Char → List Draft × ArrayEnd × Option (List Char)
  | 0, _, _ => ([], .cut, none)
  | fuel + 1, first, s =>
    match dropGap s with
    | [] => ([], .cut, none)
    | ']' :: rest => ([], .closed, some rest)
    | c :: rest =>
      if !first && c ≠ ',' then ([], .junk, none)
      else
        let item := if first then c :: rest else dropGap rest
        match item, first with
        | [], false => ([], .comma .unfinished, none)
        | ']' :: _, false => ([], .comma .malformed, none)
        | item, _ =>
          match valueAt fuel item with
          | (value, none) => ([value], .junk, none)
          | (value, some behind) =>
            let (items, ending, behind) := itemsAt fuel false behind
            (value :: items, ending, behind)

/-- An object after the members read so far, the last one first. -/
def membersAt : Nat → List (Except Fault String × Draft) → List Char → Draft × Option (List Char)
  | 0, members, _ => (.object members.reverse none (some (.unfinished, .unfinished)), none)
  | fuel + 1, members, s =>
    let stop := fun read skip => (Draft.object members.reverse none (some (read, skip)), none)
    match dropGap s with
    | [] => stop .unfinished .unfinished
    | '}' :: rest => (.object members.reverse none none, some rest)
    | c :: rest =>
      if !members.isEmpty && c ≠ ',' then stop .malformed .malformed
      else
        match if members.isEmpty then c :: rest else dropGap rest with
        | [] => stop .unfinished .unfinished
        | '"' :: rest =>
          match skipString rest with
          | .error skip =>
            match stringAt rest with
            | .error read => stop read skip
            | .ok _ => stop skip skip
          | .ok behind =>
            let name := stringAt rest
            let last := fun value =>
              (Draft.object ((name, value) :: members).reverse none
                (some (.malformed, .malformed)), none)
            match dropGap behind with
            | [] => last (fault .unfinished)
            | ':' :: rest =>
              match valueAt fuel rest with
              | (value, none) => last value
              | (value, some behind) => membersAt fuel ((name, value) :: members) behind
            | _ => last (fault .malformed)
        | other =>
          if members.isEmpty then
            (.object [] (some (valueAt fuel other).1) (some (.malformed, .malformed)), none)
          else stop .malformed .malformed

end

mutual

/-- The draft of a complete value. -/
def ofJson : Json → Draft
  | .null => .null
  | .bool value => .bool value
  | .number value => .number (.ok value)
  | .string text => .string (.ok text)
  | .array items => .array (ofItems items) .closed
  | .object members => .object (ofMembers members) none none

/-- The drafts of the items of an array. -/
def ofItems : List Json → List Draft
  | [] => []
  | item :: items => ofJson item :: ofItems items

/-- The drafts of the members of an object. -/
def ofMembers : List (String × Json) → List (Except Fault String × Draft)
  | [] => []
  | (name, value) :: members => (.ok name, ofJson value) :: ofMembers members

end

mutual

/-- The fault met when a part is skipped. -/
def skipFault? : Draft → Option Fault
  | .broken _ skip => some skip
  | .array items ending =>
    match skipItems? items with
    | some f => some f
    | none =>
      match ending with
      | .closed => none
      | .cut => some .unfinished
      | .comma f => some f
      | .junk => some .malformed
  | .object members stray ending =>
    match skipMembers? members with
    | some f => some f
    | none => if stray.isSome then some .malformed else ending.map Prod.snd
  | _ => none

/-- The first fault met when the items of an array are skipped. -/
def skipItems? : List Draft → Option Fault
  | [] => none
  | item :: items =>
    match skipFault? item with
    | some f => some f
    | none => skipItems? items

/-- The first fault met when the members of an object are skipped. -/
def skipMembers? : List (Except Fault String × Draft) → Option Fault
  | [] => none
  | (_, value) :: members =>
    match skipFault? value with
    | some f => some f
    | none => skipMembers? members

end

end Draft

/-- A JSON text: its value and whether anything but blanks follows it. -/
structure Document where
  /-- The value. -/
  root : Draft
  /-- Something follows the value. -/
  trailing : Bool

/-- The document written in a text. -/
def Document.ofText (text : String) : Document :=
  let s := text.toList
  let (root, behind) := Draft.valueAt (2 * s.length + 2) s
  ⟨root, behind.any fun rest => (Draft.dropGap rest) ≠ []⟩

end ScriptAssembly.Json
