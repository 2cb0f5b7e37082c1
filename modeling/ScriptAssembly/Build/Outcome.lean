import ScriptAssembly.Build.Descriptor
import ScriptAssembly.Diagnostic

/-!
# Outcomes and results

A backend reports an outcome: whether there were errors, its diagnostics, and where the binary is.
The result of a build is what the outcome means: a binary, or all diagnostics in the order in which
they were reported.
-/

namespace ScriptAssembly

namespace Severity

/-- A severity is written as its word. -/
def toJson (severity : Severity) : Json := .string severity.text

/-- A severity is read from its word. -/
def decode : Json.Decoder Severity :=
  Json.Decoder.variant ⟨("error", .error), ("warning", .warning)⟩

end Severity

namespace Diagnostic

/-- The persisted form: what is not known is left out. -/
def toJson (d : Diagnostic) : Json := .object <|
  [("severity", d.severity.toJson)] ++
  Json.optionalMember "file" Path.toJson d.file ++
  Json.optionalMember "line" (fun n => Json.ofNat n.toNat) d.line ++
  Json.optionalMember "column" (fun n => Json.ofNat n.toNat) d.column ++
  Json.optionalMember "code" .string d.code ++
  [("message", .string d.message)]

/-- The fields of the persisted form. -/
def record : Json.Record Diagnostic :=
  Json.Record.start Diagnostic.mk
    |>.required "severity" Severity.decode
    |>.defaulted "file" (Json.Decoder.option Path.decode) none
    |>.defaulted "line" (Json.Decoder.option Json.Decoder.word32) none
    |>.defaulted "column" (Json.Decoder.option Json.Decoder.word32) none
    |>.defaulted "code" (Json.Decoder.option Json.Decoder.string) none
    |>.required "message" Json.Decoder.string

/-- Reads the persisted form. -/
def decode : Json.Decoder Diagnostic := record.decode "struct Diagnostic"

end Diagnostic

/-- What a backend reports. -/
structure Outcome where
  /-- The build has failed. -/
  hasErrors : Bool
  /-- The messages, in the order in which they were reported. -/
  diagnostics : List Diagnostic
  /-- Where the binary is written. -/
  outputPath : Path
deriving DecidableEq, Repr

namespace Outcome

/-- The persisted form. -/
def toJson (o : Outcome) : Json := .object [
  ("has_errors", .bool o.hasErrors),
  ("diagnostics", .array (o.diagnostics.map Diagnostic.toJson)),
  ("output_path", o.outputPath.toJson)]

/-- The fields of the persisted form. -/
def record : Json.Record Outcome :=
  Json.Record.start Outcome.mk
    |>.required "has_errors" Json.Decoder.bool
    |>.required "diagnostics" (Json.Decoder.list Diagnostic.decode)
    |>.required "output_path" Path.decode

/-- Reads the persisted form. -/
def decode : Json.Decoder Outcome := record.decode "struct BackendOutcome"

end Outcome

/-- What came of a build. -/
inductive BuildResult where
  /-- The binary at `output`. -/
  | success (output : Path)
  /-- No binary, and why. -/
  | failure (diagnostics : List Diagnostic)
deriving DecidableEq, Repr

namespace BuildResult

/-- The meaning of an outcome. -/
def ofOutcome (o : Outcome) : BuildResult :=
  if o.hasErrors then .failure o.diagnostics else .success o.outputPath

/-- The persisted form: a status and what belongs to it. -/
def toJson : BuildResult → Json
  | .success output => .object [("status", .string "success"), ("output", output.toJson)]
  | .failure diagnostics =>
    .object [("status", .string "failure"), ("diagnostics", .array (diagnostics.map (·.toJson)))]

/-- Reads what belongs to a status. -/
def decodeBody : Bool → Json.Decoder BuildResult
  | true => ((Json.Record.start BuildResult.success).required "output" Path.decode).decode
      "struct variant BuildResult::Success"
  | false => ((Json.Record.start BuildResult.failure).required "diagnostics"
      (Json.Decoder.list Diagnostic.decode)).decode "struct variant BuildResult::Failure"

/-- The statuses: whether there is a binary. -/
def statuses : Json.Decoder.Variants Bool := ⟨("success", true), ("failure", false)⟩

/-- The status among the members of an object, and the other members read to their end. -/
def splitStatus (status : Option Bool) : List (Except Json.Fault String × Json.Draft) →
    Except Json.DecodeError (Option Bool × List (String × Json))
  | [] => .ok (status, [])
  | (name, value) :: members => do
    let name ← name.mapError .fault
    if name = "status" then
      if status.isSome then throw (.mismatch (.duplicateField "status"))
      splitStatus (some (← statuses.name value)) members
    else
      let value ← (value.toJson (Json.depthLimit - 1)).mapError .fault
      let (status, others) ← splitStatus status members
      return (status, (name, value) :: others)

/-- Reads the persisted form: the status may stand anywhere among the members, so these are read to
their end before they are decoded; in an array the status comes first. -/
def decode : Json.Decoder BuildResult := fun _ draft =>
  match draft with
  | .object members stray ending => do
    let (status, others) ← splitStatus none members
    if stray.isSome then throw (.fault .malformed)
    match ending, status with
    | some (f, _), _ => throw (.fault f)
    | none, none => throw (.mismatch (.missingField "status"))
    | none, some status => decodeBody status .buffer (.ofJson (.object others))
  | .array items ending => do
    let endFault := fun (_ : Unit) =>
      match Json.Decoder.endFault? ending with
      | some f => throw (.fault f)
      | none => pure ()
    match items with
    | [] =>
      endFault ()
      throw (.mismatch (.missingField "status"))
    | first :: rest =>
      let status ← statuses.name first
      let values ← (Json.Draft.toItems (Json.depthLimit - 1) rest).mapError .fault
      endFault ()
      decodeBody status .buffer (.ofJson (.array values))
  | draft => draft.reject "internally tagged enum BuildResult"

end BuildResult

end ScriptAssembly
