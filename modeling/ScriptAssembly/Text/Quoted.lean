import ScriptAssembly.Text.Classes

/-!
# Quoted texts in messages

A text is shown between double quotes, with an escape for the quote, the backslash and every
character that would not print by itself.
-/

namespace ScriptAssembly.Text

/-- A character inside a quoted text. -/
def showChar (c : Char) : List Char :=
  if c = '"' then ['\\', '"']
  else if c = '\\' then ['\\', '\\']
  else if c = '\n' then ['\\', 'n']
  else if c = '\r' then ['\\', 'r']
  else if c = '\t' then ['\\', 't']
  else if c = '\x00' then ['\\', '0']
  else if isHidden c then
    '\\' :: 'u' :: '\x7b' :: (Nat.toDigits 16 c.toNat ++ ['\x7d'])
  else [c]

/-- The text between quotes. -/
def quoted (s : String) : String := .ofList ('"' :: (s.toList.flatMap showChar ++ ['"']))

end ScriptAssembly.Text
