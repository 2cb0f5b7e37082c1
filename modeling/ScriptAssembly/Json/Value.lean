import ScriptAssembly.Json.Number

/-!
# JSON values and their written forms

The pretty form puts every item on a line of its own, indented by two spaces a level; the compact
form has no blanks at all.  In a string only the quote, the backslash and control characters are
escaped.
-/

namespace ScriptAssembly

/-- A JSON value; the members of an object keep their order. -/
inductive Json where
  | null
  | bool (value : Bool)
  | number (value : Json.Number)
  | string (value : String)
  | array (items : List Json)
  | object (members : List (String × Json))

namespace Json

instance : Inhabited Json := ⟨.null⟩

/-- A natural number of 64 bits. -/
def ofNat (n : Nat) : Json := .number (.natural (.ofNat n))

/-- The value, or `null` where there is none. -/
def ofOption {α : Type} (encode : α → Json) : Option α → Json
  | none => .null
  | some x => encode x

/-- A member that is left out where there is no value. -/
def optionalMember {α : Type} (name : String) (encode : α → Json) :
    Option α → List (String × Json)
  | none => []
  | some x => [(name, encode x)]

/-- A hexadecimal digit in lower case. -/
def hexDigit (n : Nat) : Char := Nat.digitChar n

/-- A character inside a quoted string. -/
def escapeChar (c : Char) : List Char :=
  if c = '"' then ['\\', '"']
  else if c = '\\' then ['\\', '\\']
  else if c = '\n' then ['\\', 'n']
  else if c = '\r' then ['\\', 'r']
  else if c = '\t' then ['\\', 't']
  else if c = '\x08' then ['\\', 'b']
  else if c = '\x0c' then ['\\', 'f']
  else if c.toNat < 0x20 then
    ['\\', 'u', '0', '0', hexDigit (c.toNat / 16), hexDigit (c.toNat % 16)]
  else [c]

/-- A string with its quotes. -/
def quote (s : String) : List Char := '"' :: (s.toList.flatMap escapeChar ++ ['"'])

/-- A new line at a level of indentation. -/
def newLine (level : Nat) : List Char := '\n' :: List.replicate (2 * level) ' '

/-- The scalar values, and the empty array and object, are written alike in both forms. -/
def scalar? : Json → Option (List Char)
  | .null => some "null".toList
  | .bool true => some "true".toList
  | .bool false => some "false".toList
  | .number n => some n.text.toList
  | .string s => some (quote s)
  | .array [] => some "[]".toList
  | .object [] => some "\x7b\x7d".toList
  | _ => none

mutual

/-- The compact form. -/
def compactChars : Json → List Char
  | .array items => '[' :: compactItems items ++ [']']
  | .object members => '{' :: compactMembers members ++ ['}']
  | value => (scalar? value).getD []

/-- The items of an array, separated by commas. -/
def compactItems : List Json → List Char
  | [] => []
  | [item] => compactChars item
  | item :: items => compactChars item ++ ',' :: compactItems items

/-- The members of an object, separated by commas. -/
def compactMembers : List (String × Json) → List Char
  | [] => []
  | [(name, value)] => quote name ++ ':' :: compactChars value
  | (name, value) :: members =>
    quote name ++ ':' :: compactChars value ++ ',' :: compactMembers members

end

mutual

/-- The pretty form of a value that starts at a level of indentation. -/
def prettyChars (level : Nat) : Json → List Char
  | .array (item :: items) =>
    '[' :: prettyItems (level + 1) (item :: items) ++ newLine level ++ [']']
  | .object (member :: members) =>
    '{' :: prettyMembers (level + 1) (member :: members) ++ newLine level ++ ['}']
  | value => (scalar? value).getD []

/-- The items of an array, each on its line. -/
def prettyItems (level : Nat) : List Json → List Char
  | [] => []
  | [item] => newLine level ++ prettyChars level item
  | item :: items => newLine level ++ prettyChars level item ++ ',' :: prettyItems level items

/-- The members of an object, each on its line. -/
def prettyMembers (level : Nat) : List (String × Json) → List Char
  | [] => []
  | [(name, value)] => newLine level ++ quote name ++ ':' :: ' ' :: prettyChars level value
  | (name, value) :: members =>
    newLine level ++ quote name ++ ':' :: ' ' :: prettyChars level value ++
      ',' :: prettyMembers level members

end

/-- The value without any blanks. -/
def compact (value : Json) : String := .ofList (compactChars value)

/-- The value with one item a line. -/
def pretty (value : Json) : String := .ofList (prettyChars 0 value)

end Json

end ScriptAssembly
