import ScriptAssembly.Scan.LineRule
import ScriptAssembly.Symbols
import ScriptAssembly.Text.Lines
import ScriptAssembly.Text.Utf8

/-!
# The define symbols of a source text

The symbols of a text are those of its lines, and the symbols of a file are those of its content,
read as UTF-8 with whatever is not UTF-8 replaced.
-/

namespace ScriptAssembly.Scan

open Text

/-- The text without the byte order mark it may start with. -/
def dropMark : List Char → List Char
  | [] => []
  | c :: rest => if c = '\uFEFF' then rest else c :: rest

/-- The names a line contributes: none if no rule claims it. -/
def lineSymbols (line : List Char) : List String :=
  (scanLine? line).elim [] LineMatch.symbols

/-- The symbols of all lines of a text. -/
def scanText (s : List Char) : SymbolSet :=
  (lines (dropMark s)).foldl (fun found line => found.insertMany (lineSymbols line)) .empty

/-- The symbols of a source file with the given content. -/
def scanContent (content : ByteArray) : SymbolSet := scanText (lossy content)

end ScriptAssembly.Scan
