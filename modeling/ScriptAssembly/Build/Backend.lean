import ScriptAssembly.Build.Outcome
import ScriptAssembly.Machine

/-!
# Backends

A backend turns a descriptor into an outcome, and a refresher makes a new binary known.  Both may
have effects, in whatever monad the caller chooses.  A runner joins them: the refresher is told of
the binary exactly when the outcome is a success.
-/

namespace ScriptAssembly

/-- What keeps a backend or a refresher from doing its work.  That sources do not compile is no such
failure but an outcome. -/
inductive BackendError where
  /-- There is no compiler. -/
  | missingCompiler (detail : String)
  /-- The compiler could not be run. -/
  | spawn (detail : String)
  /-- The new binary could not be made known. -/
  | refresh (detail : String)
deriving DecidableEq, Repr

/-- The wording of a failure. -/
def BackendError.message : BackendError → String
  | .missingCompiler detail => s!"Compiler not found: {detail}"
  | .spawn detail => s!"Failed to run compiler: {detail}"
  | .refresh detail => s!"Asset refresh failed: {detail}"

/-- A way to compile a descriptor. -/
structure Backend (m : Type → Type) where
  /-- The name it is chosen by. -/
  name : String
  /-- Compiles a descriptor. -/
  compile : Descriptor → ExceptT BackendError m Outcome

/-- A way to make a new binary known. -/
abbrev Refresher (m : Type → Type) := Path → ExceptT BackendError m Unit

/-- Runs one build. -/
structure Runner (m : Type → Type) where
  /-- Compiles the descriptor. -/
  backend : Backend m
  /-- Makes the binary known. -/
  refresher : Refresher m

/-- Compiles a descriptor and makes the binary known if there is one. -/
def Runner.run {m : Type → Type} [Monad m] (runner : Runner m) (d : Descriptor) :
    ExceptT BackendError m BuildResult := do
  let result := BuildResult.ofOutcome (← runner.backend.compile d)
  match result with
  | .success output => runner.refresher output
  | .failure _ => pure ()
  return result

/-- The backend of a name. -/
def Backend.named? {m : Type → Type} (known : List (Backend m)) (name : String) :
    Option (Backend m) :=
  known.find? fun backend => backend.name = name

theorem Backend.name_of_named? {m : Type → Type} {known : List (Backend m)} {name : String}
    {backend : Backend m} (hbackend : named? known name = some backend) : backend.name = name := by
  simpa using List.find?_some hbackend

namespace DryRun

/-- What is said of the references that are no files. -/
def missingReferences (machine : Machine) (references : List Path) : List Diagnostic :=
  (references.filter fun p => !machine.isFile p).map fun p =>
    .coded "CS0006" s!"Reference binary not found: {p.text}"

/-- What is said of the sources that are no files. -/
def missingSources (machine : Machine) (sources : List Path) : List Diagnostic :=
  (sources.filter fun p => !machine.isFile p).map fun p =>
    .coded "CS2001" s!"Source file '{p.text}' could not be found"

/-- What is said where there is no source. -/
def noSources (sources : List Path) : List Diagnostic :=
  if sources.isEmpty then [.coded "CS2008" "No source files specified"] else []

/-- Checks that every input is a file, and writes nothing. -/
def outcome (machine : Machine) (d : Descriptor) : Outcome :=
  let diagnostics := missingReferences machine d.references ++
    missingSources machine d.sources ++ noSources d.sources
  ⟨diagnostics.any Diagnostic.isError, diagnostics, d.outputPath⟩

/-- The backend that only checks its inputs. -/
def backend : Backend (StateM Machine) where
  name := "dry-run"
  compile d := return outcome (← getThe Machine) d

end DryRun

end ScriptAssembly
