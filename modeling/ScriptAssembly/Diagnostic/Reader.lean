import ScriptAssembly.Diagnostic
import ScriptAssembly.Text.Lines
import ScriptAssembly.Text.Search
import ScriptAssembly.Text.Trim

/-!
# Reading compiler output

A line of compiler output is a diagnostic if it has the form `file(line,column): error CODE: message`,
`TOOL : error CODE: message` or `error CODE: message`.  The file name may hold anything, parentheses
included: the place is the first `(line,column)` behind it that a severity and a code follow.
-/

namespace ScriptAssembly.Diagnostic

open Text

/-- A severity at the start of the text. -/
def severityAt? (s : List Char) : Option (Severity × List Char) :=
  match after? "error" s with
  | some rest => some (.error, rest)
  | none => (after? "warning" s).map (.warning, ·)

/-- The part of a diagnostic between its place and its message. -/
structure Headline where
  /-- The severity word. -/
  severity : Severity
  /-- The code: ASCII letters, then digits. -/
  code : List Char

/-- A code at the start of the text: one or more ASCII letters and one or more digits. -/
def codeAt? (s : List Char) : Option (List Char × List Char) :=
  let letters := s.takeWhile Char.isAlpha
  let behind := s.dropWhile Char.isAlpha
  let digits := behind.takeWhile isDigit
  if letters = [] ∨ digits = [] then none
  else some (letters ++ digits, behind.dropWhile isDigit)

/-- A colon after any blanks. -/
def colonAt? (s : List Char) : Option (List Char) := after? ":" (trimStart s)

/-- A severity, blanks, a code and a colon at the start of the text. -/
def headlineAt? (s : List Char) : Option (Headline × List Char) := do
  let (severity, rest) ← severityAt? s
  let (code, behind) ← if rest.head?.any isBlank then codeAt? (trimStart rest) else none
  let message ← colonAt? behind
  some (⟨severity, code⟩, message)

/-- The message that ends a line: it may not hold a line feed inside. -/
def messageOf? (s : List Char) : Option (List Char) :=
  if '\n' ∈ trim s then none else some (trim s)

/-- A run of one or more digits at the start of the text. -/
def digitsAt? (s : List Char) : Option (List Char × List Char) :=
  let digits := s.takeWhile isDigit
  if digits = [] then none else some (digits, s.dropWhile isDigit)

/-- The digits of a line and a column, and what follows them. -/
structure Locus where
  /-- The digits of the line. -/
  line : List Char
  /-- The digits of the column. -/
  column : List Char
  /-- The severity and code behind the position. -/
  headline : Headline
  /-- The text behind the colon of the headline. -/
  rest : List Char

/-- A parenthesised position with a headline behind it, at the start of the text. -/
def locusAt? (s : List Char) : Option Locus := do
  let (line, behindLine) ← digitsAt? (← after? "(" s)
  let (column, behindColumn) ← digitsAt? (← after? "," behindLine)
  let (headline, rest) ← headlineAt? (trimStart (← colonAt? (← after? ")" behindColumn)))
  some ⟨line, column, headline, rest⟩

/-- A number written in ASCII digits, if it fits 32 bits. -/
def number? (digits : List Char) : Option UInt32 :=
  if digits.all Char.isDigit then
    let value := digits.foldl (fun n c => n * 10 + (c.toNat - '0'.toNat)) 0
    if value < UInt32.size then some (.ofNat value) else none
  else none

/-- The diagnostic of a file name and the place behind it, if the message fits on the line. -/
def atPlace? (file : List Char) (locus : Locus) : Option Diagnostic :=
  (messageOf? locus.rest).map fun message => {
    severity := locus.headline.severity
    file := some ⟨.ofList (trim file)⟩
    line := number? locus.line
    column := number? locus.column
    code := some (.ofList locus.headline.code)
    message := .ofList message }

/-- The first place behind one or more characters of this line that make up the file name;
`before` holds the characters already passed, last first. -/
def locateFrom? (before : List Char) : List Char → Option Diagnostic
  | [] => none
  | c :: rest =>
    if c = '\n' then none
    else
      match (locusAt? rest).bind fun locus => atPlace? (c :: before).reverse locus with
      | some found => some found
      | none => locateFrom? (c :: before) rest

/-- A line that names its place.  Where no place is found behind a name, the blank before the line
stands for the name. -/
def located? (line : List Char) : Option Diagnostic :=
  let indent := line.takeWhile isBlank
  let body := line.dropWhile isBlank
  match locateFrom? [] body with
  | some found => some found
  | none =>
    match indent.getLast? with
    | some last => if last = '\n' then none else (locusAt? body).bind (atPlace? [])
    | none => none

/-- What follows the name of a tool and its colon, at the start of the text. -/
def behindTool? (s : List Char) : Option (List Char) :=
  let inName := fun c => c ≠ ':' ∧ isBlank c = false
  if s.head?.any fun c => inName c then (colonAt? (s.dropWhile fun c => inName c)).map trimStart
  else none

/-- A line that names no place, with or without the name of a tool in front. -/
def unlocated? (line : List Char) : Option Diagnostic := do
  let body := trimStart line
  let (headline, rest) ← match (behindTool? body).bind headlineAt? with
    | some found => some found
    | none => headlineAt? body
  let message ← messageOf? rest
  some {
    severity := headline.severity
    code := some (.ofList headline.code)
    message := .ofList message }

/-- The diagnostic on a line of compiler output, if there is one. -/
def ofLine? (line : List Char) : Option Diagnostic :=
  match located? line with
  | some found => some found
  | none => unlocated? line

/-- The diagnostics of a compiler's output, in the order of its lines. -/
def ofOutput (output : List Char) : List Diagnostic := (lines output).filterMap ofLine?

end ScriptAssembly.Diagnostic
