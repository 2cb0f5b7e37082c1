import ScriptAssembly.Build.Backend
import ScriptAssembly.Diagnostic.Reader

/-!
# The compiler

The backend that runs a C# compiler: which program that is, the arguments it gets, and what its exit
status and its output mean.  An unsuccessful run always leaves an error among the diagnostics, and
so does every error the compiler reports, so an outcome has errors exactly when its diagnostics do.
-/

namespace ScriptAssembly

/-- How a program ended. -/
inductive ExitStatus where
  /-- By itself, with a code. -/
  | code (value : Nat)
  /-- By a signal; its memory may have been dumped. -/
  | signal (number : Nat) (dumped : Bool := false)
deriving DecidableEq, Repr

namespace ExitStatus

/-- The names of the signals, from the first one on. -/
def signalNames : List String := [
  "SIGHUP", "SIGINT", "SIGQUIT", "SIGILL", "SIGTRAP", "SIGABRT", "SIGBUS", "SIGFPE", "SIGKILL",
  "SIGUSR1", "SIGSEGV", "SIGUSR2", "SIGPIPE", "SIGALRM", "SIGTERM", "SIGSTKFLT", "SIGCHLD",
  "SIGCONT", "SIGSTOP", "SIGTSTP", "SIGTTIN", "SIGTTOU", "SIGURG", "SIGXCPU", "SIGXFSZ",
  "SIGVTALRM", "SIGPROF", "SIGWINCH", "SIGIO", "SIGPWR", "SIGSYS"]

/-- The program ended by itself with code zero. -/
def isSuccess (status : ExitStatus) : Bool := status = .code 0

/-- The status as a message names it. -/
def text : ExitStatus → String
  | .code value => s!"exit status: {value}"
  | .signal number dumped =>
    let ending := if dumped then " (core dumped)" else ""
    match signalNames[number - 1]? with
    | some name => s!"signal: {number} ({name}){ending}"
    | none => s!"signal: {number}{ending}"

end ExitStatus

/-- What a program did: how it ended and what it wrote. -/
structure Execution where
  /-- How it ended. -/
  status : ExitStatus
  /-- What it wrote to its standard output. -/
  output : ByteArray
  /-- What it wrote to its standard error output. -/
  errors : ByteArray

/-- Runs a program with arguments. -/
abbrev Spawn := Path → List String → ExceptT IoError (StateM Machine) Execution

namespace Compiler

/-- The variable that names the compiler. -/
def pinVariable : String := "DLL_FORGE_CSC"

/-- The names a compiler goes by, the preferred one first. -/
def programs : List String := ["csc", "mcs"]

/-- The first directory of the search path that holds a program. -/
def searchPath? (m : Machine) (program : String) : Option Path :=
  (m.environmentValue? "PATH").bind fun value =>
    (((Text.split ':' value.toList).map fun entry => (Path.mk (.ofList entry)).join ⟨program⟩)).find?
      m.isFile

/-- The compiler named by the variable, if that is a file. -/
def fromVariable? (m : Machine) : Option Path :=
  ((m.environmentValue? pinVariable).map Path.mk).filter m.isFile

/-- The program to run: the configured one and no other if there is one, else the one that the
variable names, else the first one on the search path. -/
def resolve (m : Machine) (configured : Option Path) : Except BackendError Path :=
  match configured with
  | some p =>
    if m.isFile p then .ok p
    else .error (.missingCompiler s!"configured compiler not found at {p.text}")
  | none =>
    match fromVariable? m with
    | some p => .ok p
    | none =>
      match programs.findSome? (searchPath? m) with
      | some p => .ok p
      | none => .error (.missingCompiler s!"set {pinVariable} or put csc/mcs on PATH")

/-- The arguments for a descriptor. -/
def arguments (d : Descriptor) : List String :=
  ["-nologo", "-target:" ++ d.kind.target, "-out:" ++ d.outputPath.text] ++
  d.references.map (fun p => "-r:" ++ p.text) ++
  d.compilerOptions.toList ++
  d.sources.map Path.text

/-- What a failed run is reported with when the compiler named no error: the status, and what was
written, trimmed. -/
def failureMessage (status : ExitStatus) (output errors : List Char) : String :=
  let detail := Text.join '\n' ([Text.trim output, Text.trim errors].filter (· ≠ []))
  let summary := s!"compiler exited with {status.text}"
  if detail = [] then summary else s!"{summary}: {String.ofList detail}"

/-- What a run of the compiler means. -/
def outcome (d : Descriptor) (execution : Execution) : Outcome :=
  let output := Text.lossy execution.output
  let errors := Text.lossy execution.errors
  let reported := Diagnostic.ofOutput output ++ Diagnostic.ofOutput errors
  let named := reported.any Diagnostic.isError
  let unnamed := !execution.status.isSuccess && !named
  { hasErrors := named || !execution.status.isSuccess
    diagnostics := reported ++
      if unnamed then [.error (failureMessage execution.status output errors)] else []
    outputPath := d.outputPath }

/-- The directory of the binary is made before the compiler runs. -/
def makeOutputDirectory (d : Descriptor) : ExceptT BackendError (StateM Machine) Unit := do
  match d.outputPath.parent? with
  | none => pure ()
  | some parent =>
    if parent.text.isEmpty then pure ()
    else
      let (machine, made) := (← getThe Machine).makeDirectories parent
      set machine
      match made with
      | .ok () => pure ()
      | .error e =>
        throw (.spawn s!"failed to create output directory {parent.text}: {e.message}")

/-- Runs the compiler on a descriptor. -/
def compile (spawn : Spawn) (configured : Option Path) (d : Descriptor) :
    ExceptT BackendError (StateM Machine) Outcome := do
  match resolve (← getThe Machine) configured with
  | .error e => throw e
  | .ok program =>
    makeOutputDirectory d
    let execution ← (spawn program (arguments d)).adapt fun e =>
      BackendError.spawn s!"failed to spawn {program.text}: {e.message}"
    return outcome d execution

/-- The backend that runs the compiler. -/
def backend (spawn : Spawn) (configured : Option Path) : Backend (StateM Machine) where
  name := "csc"
  compile := compile spawn configured

end Compiler

/-- The backends there are, by name. -/
def Backend.all (spawn : Spawn) (configured : Option Path) : List (Backend (StateM Machine)) :=
  [Compiler.backend spawn configured, DryRun.backend]

/-- The backend used where none is chosen. -/
def Backend.defaultName : String := "csc"

end ScriptAssembly
