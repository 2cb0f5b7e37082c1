import ScriptAssembly.Text.Split

/-!
# Physical lines

A line ends at a line feed; a carriage return right before that line feed belongs to the line end.
What follows the last line feed is a line only if it is not empty.
-/

namespace ScriptAssembly.Text

/-- A line without the carriage return that its line feed was paired with. -/
def dropReturn (line : List Char) : List Char :=
  if line.getLast? = some '\r' then line.dropLast else line

/-- What follows the last line feed, as a line: none if nothing follows. -/
def lastLine (piece : List Char) : List (List Char) :=
  if piece.isEmpty then [] else [piece]

/-- The physical lines of a text, without their line ends. -/
def lines (s : List Char) : List (List Char) :=
  let pieces := split '\n' s
  pieces.dropLast.map dropReturn ++ lastLine (pieces.getLastD [])

end ScriptAssembly.Text
