import ScriptAssembly.Build.Compiler
import ScriptAssembly.Command.Error

/-!
# The world of a command

A command sees a machine, changes it and prints.  What it printed and changed before it failed
stays.
-/

namespace ScriptAssembly

/-- A machine and what has been printed on it. -/
structure World where
  /-- The machine. -/
  machine : Machine
  /-- What has been printed. -/
  printed : String

/-- What a command needs from outside: a way to run programs, and the time. -/
structure Host where
  /-- Runs a program. -/
  spawn : Spawn
  /-- The time that stamps carry. -/
  now : String

/-- A command that may fail. -/
abbrev Command (α : Type) := ExceptT CommandError (StateM World) α

namespace Command

/-- The machine as it is. -/
def machine : Command Machine := return (← getThe World).machine

/-- Prints a line. -/
def printLine (line : String) : Command Unit :=
  modifyThe World fun world => { world with printed := world.printed ++ line ++ "\n" }

/-- Prints lines. -/
def printLines (lines : List String) : Command Unit := lines.forM printLine

/-- Prints a JSON value in its pretty form. -/
def printJson (value : Json) : Command Unit := printLine value.pretty

/-- An action on the machine alone; `wrap` tells what its failure means for the command. -/
def onMachine {ε α : Type} (wrap : ε → CommandError) (action : ExceptT ε (StateM Machine) α) :
    Command α := do
  let world ← getThe World
  let (result, changed) := (action.run).run world.machine
  set { world with machine := changed }
  match result with
  | .ok value => return value
  | .error e => throw (wrap e)

/-- The result of a check, or the failure it stands for. -/
def check {ε α : Type} (wrap : ε → CommandError) : Except ε α → Command α
  | .ok value => return value
  | .error e => throw (wrap e)

end Command

namespace Machine

/-- The root that a user names: the working directory for `.`, else the canonical path, or the path
read from the working directory if it leads nowhere. -/
def namedRoot (m : Machine) (root : String) : Except IoError Path :=
  let p := Path.mk root
  if p.Same ⟨"."⟩ then m.workingDirectory
  else
    match m.canonical p with
    | .ok known => .ok known
    | .error _ => m.workingDirectory.map fun directory => directory.join p

/-- The facade library that new projects link against. -/
def netstandardName : String := "netstandard.dll"

/-- The facade library in a directory, if it is there. -/
def netstandard? (m : Machine) (directory : Path) : Option Path :=
  some (directory.join ⟨netstandardName⟩) |>.filter m.isFile

end Machine

end ScriptAssembly
