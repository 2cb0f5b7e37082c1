import ScriptAssembly.Path

/-!
# Compiler diagnostics

One message of a compiler, with the place it points at where the compiler named one.  Its display
text has the compiler's own shape, `file(line,column): error CODE: message`.
-/

namespace ScriptAssembly

/-- Whether a diagnostic stops the build. -/
inductive Severity where
  /-- The build has failed. -/
  | error
  /-- The build goes on. -/
  | warning
deriving DecidableEq, Repr

/-- The compiler's word for a severity. -/
def Severity.text : Severity → String
  | .error => "error"
  | .warning => "warning"

/-- One message reported by a compiler. -/
structure Diagnostic where
  /-- Whether the message stops the build. -/
  severity : Severity
  /-- The file the message is about. -/
  file : Option Path := none
  /-- The line in that file. -/
  line : Option UInt32 := none
  /-- The column in that line. -/
  column : Option UInt32 := none
  /-- The compiler's code for this kind of message. -/
  code : Option String := none
  /-- What is wrong. -/
  message : String
deriving DecidableEq, Repr

namespace Diagnostic

/-- An error with neither place nor code. -/
def error (message : String) : Diagnostic := { severity := .error, message }

/-- An error with a code and no place. -/
def coded (code message : String) : Diagnostic := { severity := .error, code, message }

/-- The message stops the build. -/
def isError (d : Diagnostic) : Bool := d.severity = .error

/-- The position in the form that follows a file name: both numbers or nothing. -/
def position (d : Diagnostic) : String :=
  match d.line, d.column with
  | some line, some column => s!"({line.toNat},{column.toNat})"
  | _, _ => ""

/-- The place in the form that precedes the severity; a position without a file is not shown. -/
def place (d : Diagnostic) : String :=
  match d.file with
  | some file => file.text ++ d.position ++ ": "
  | none => ""

/-- The code in the form that follows the severity. -/
def label (d : Diagnostic) : String :=
  match d.code with
  | some code => " " ++ code
  | none => ""

/-- The diagnostic as one line of compiler output. -/
def display (d : Diagnostic) : String :=
  d.place ++ d.severity.text ++ d.label ++ ": " ++ d.message

end Diagnostic

end ScriptAssembly
