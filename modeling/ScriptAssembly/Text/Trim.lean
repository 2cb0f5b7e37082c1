import ScriptAssembly.Text.Classes

/-!
# Surrounding white space

`trim` removes the blanks at both ends of a text and nothing else.
-/

namespace ScriptAssembly.Text

/-- The text without its leading blanks. -/
def trimStart (s : List Char) : List Char := s.dropWhile isBlank

/-- The text without its trailing blanks. -/
def trimEnd (s : List Char) : List Char := (s.reverse.dropWhile isBlank).reverse

/-- The text without the blanks at either end. -/
def trim (s : List Char) : List Char := trimEnd (trimStart s)

/-- `trim` on strings. -/
def trimmed (s : String) : String := .ofList (trim s.toList)

end ScriptAssembly.Text
