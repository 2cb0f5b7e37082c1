import ScriptAssembly.Build.Backend
import ScriptAssembly.Session

/-!
# Scanning and building

One build of a session: the sources are scanned if asked for, and the session as it then is goes to
the runner.  What is returned is that session with the result.
-/

namespace ScriptAssembly

/-- Why a session could not be built at all. -/
inductive PipelineError where
  /-- A source could not be scanned. -/
  | scan (cause : ScanError)
  /-- The backend or the refresher failed. -/
  | backend (cause : BackendError)
deriving DecidableEq, Repr

/-- The session with the symbols of its sources, or the session itself if no scan is given. -/
def Session.scanned (scan : Option (Session → Except ScanError Session)) (s : Session) :
    Except ScanError Session :=
  match scan with
  | some rescan => rescan s
  | none => .ok s

/-- Scans a session if asked for and builds it. -/
def scanAndBuild {m : Type → Type} [Monad m]
    (scan : Option (Session → Except ScanError Session)) (runner : Runner m) (directory : Path)
    (s : Session) : ExceptT PipelineError m (Session × BuildResult) :=
  match s.scanned scan with
  | .error e => throw (.scan e)
  | .ok scanned => do
    let result ← (runner.run (scanned.descriptor directory)).adapt PipelineError.backend
    return (scanned, result)

end ScriptAssembly
