import ScriptAssembly.Build.Backend
import ScriptAssembly.Sha256

/-!
# Build stamps

After every successful build a stamp is written for whoever waits for the binary: where the binary
is, its digest, and the time.
-/

namespace ScriptAssembly

/-- Why a file could not be digested. -/
inductive DigestError where
  /-- There is no such file. -/
  | opening (path : Path) (cause : IoError)
  /-- The file could not be read. -/
  | reading (path : Path) (cause : IoError)
deriving DecidableEq, Repr

namespace DigestError

/-- The wording of the failure. -/
def message : DigestError → String
  | .opening p _ => s!"Failed to open file for hashing: {p.text}"
  | .reading p _ => s!"Failed to read file for hashing: {p.text}"

end DigestError

/-- The SHA-256 digest of a file in hexadecimal digits. -/
def Machine.digest (m : Machine) (p : Path) : Except DigestError String :=
  match m.readBytes p with
  | .ok content => .ok (Sha256.hex content.data.toList)
  | .error .isDirectory => .error (.reading p .isDirectory)
  | .error cause => .error (.opening p cause)

/-- What is told of a successful build. -/
structure Stamp where
  /-- Where the binary is. -/
  output : String
  /-- The digest of the binary, if it is a file. -/
  digest : Option String
  /-- The time of the stamp. -/
  refreshedAt : String
deriving DecidableEq, Repr

namespace Stamp

/-- The persisted form. -/
def toJson (s : Stamp) : Json := .object [
  ("output", .string s.output),
  ("sha256", Json.ofOption .string s.digest),
  ("refreshed_at", .string s.refreshedAt)]

/-- The fields of the persisted form. -/
def record : Json.Record Stamp :=
  Json.Record.start Stamp.mk
    |>.required "output" Json.Decoder.string
    |>.field "sha256" (Json.Decoder.option Json.Decoder.string) (.nullable none)
    |>.required "refreshed_at" Json.Decoder.string

/-- Reads the persisted form. -/
def decode : Json.Decoder Stamp := record.decode "struct RefreshStamp"

/-- The stamp of a binary at a time. -/
def ofOutput (m : Machine) (now : String) (output : Path) : Except DigestError Stamp :=
  if m.isFile output then
    (m.digest output).map fun digest => ⟨output.text, some digest, now⟩
  else .ok ⟨output.text, none, now⟩

/-- Makes the directories above a path. -/
def makeParent (path : Path) : ExceptT BackendError (StateM Machine) Unit := do
  match path.parent? with
  | none => pure ()
  | some parent =>
    let (machine, made) := (← getThe Machine).makeDirectories parent
    set machine
    match made with
    | .ok () => pure ()
    | .error e => throw (.refresh e.message)

/-- Writes a stamp, making the directories above it. -/
def write (path : Path) (stamp : Stamp) : ExceptT BackendError (StateM Machine) Unit := do
  makeParent path
  match (← getThe Machine).writeFile path stamp.toJson.pretty.toUTF8 with
  | .ok machine => set machine
  | .error e => throw (.refresh s!"failed to write {path.text}: {e.message}")

/-- The refresher that writes a stamp to a path. -/
def refresher (path : Path) (now : String) : Refresher (StateM Machine) := fun output => do
  match ofOutput (← getThe Machine) now output with
  | .error e => throw (.refresh e.message)
  | .ok stamp => write path stamp

end Stamp

end ScriptAssembly
