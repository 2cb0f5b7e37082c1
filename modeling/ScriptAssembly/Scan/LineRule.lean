import ScriptAssembly.Text.Search
import ScriptAssembly.Text.Split
import ScriptAssembly.Text.Trim

/-!
# What one line says about define symbols

Three rules are tried in order and the first that claims the line decides, even if it then finds no
name: `#define` names one symbol, `#if` and `#elif` name every word of the line that is no keyword,
and a `[Conditional("…")]` attribute names its argument.  A line is read on its own; nothing is
carried from one line to the next.
-/

namespace ScriptAssembly.Scan

open Text

/-- The rules, in the order in which they are tried. -/
inductive LineRule where
  /-- A line that starts with `#define`. -/
  | define
  /-- A line that starts with `#if` or `#elif`. -/
  | expression
  /-- A line with a `[Conditional(` attribute. -/
  | attribute
deriving DecidableEq, Repr

/-- The rule that claimed a line and the names it found, in line order and with repetitions. -/
structure LineMatch where
  /-- The rule that claimed the line. -/
  rule : LineRule
  /-- The names found on the line. -/
  symbols : List String
deriving DecidableEq, Repr

/-- Words of a conditional line that never name a symbol. -/
def keywords : List String := ["if", "elif", "else", "true", "false", "endif", "defined"]

/-- The word is a keyword of conditional lines. -/
def isKeyword (word : String) : Bool := keywords.contains word

/-- The name defined by a `#define` at the start of the text: the word after one or more blanks. -/
def definedAt? (s : List Char) : Option (List Char) := do
  let rest ← after? "#define" s
  let name := (rest.dropWhile isBlank).takeWhile isWord
  if rest.head?.any isBlank ∧ name ≠ [] then some name else none

/-- The maximal runs of word characters, from the left. -/
def words (s : List Char) : List (List Char) :=
  (splitWhere (fun c => !isWord c) s).filter (· ≠ [])

/-- The shortest text on this line, of one character at least, that `")]` follows. -/
def untilClosing? : List Char → Option (List Char)
  | [] => none
  | c :: rest =>
    if c = '\n' then none
    else if startsWith "\")]" rest then some [c]
    else (untilClosing? rest).map (c :: ·)

/-- The argument of a `[Conditional("…")]` at the start of the text. -/
def argumentAt? (s : List Char) : Option (List Char) :=
  (after? "[Conditional(\"" s).bind untilClosing?

/-- The rule that claims a line. -/
def claimant? (line : List Char) : Option LineRule :=
  let opening := trimStart line
  if startsWith "#define" opening then some .define
  else if startsWith "#if" opening || startsWith "#elif" opening then some .expression
  else if contains "[Conditional(" line then some .attribute
  else none

/-- The names that a rule finds on a line it has claimed. -/
def LineRule.names (line : List Char) : LineRule → List String
  | .define => ((leftmost? definedAt? line).map String.ofList).toList
  | .expression => ((words line).map String.ofList).filter fun word => !isKeyword word
  | .attribute => ((leftmost? argumentAt? line).map String.ofList).toList

/-- What a line says, if a rule claims it. -/
def scanLine? (line : List Char) : Option LineMatch :=
  (claimant? line).map fun rule => ⟨rule, rule.names line⟩

end ScriptAssembly.Scan
