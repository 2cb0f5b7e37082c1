import ScriptAssembly.Json.Draft
import ScriptAssembly.Text.Quoted

/-!
# Decoding

A decoder turns a draft into a value of a domain type or says what is wrong with it: a fault of the
text, or a value of the wrong kind.  The first thing wrong, in the order of the text, is the one
reported.
-/

namespace ScriptAssembly.Json

/-- What a decoder finds in place of the value it expects. -/
inductive Kind where
  | null
  | bool (value : Bool)
  | number (value : Number)
  | string (text : String)
  | sequence
  | map

/-- The kind as a message names it. -/
def Kind.text : Kind → String
  | .null => "null"
  | .bool true => "boolean `true`"
  | .bool false => "boolean `false`"
  | .number (.float value) => s!"floating point `{floatText value}`"
  | .number value => s!"integer `{value.text}`"
  | .string text => s!"string {Text.quoted text}"
  | .sequence => "sequence"
  | .map => "map"

/-- A value that follows the grammar and is still not what it should be. -/
inductive Mismatch where
  /-- A value of another kind. -/
  | wrongKind (found : Kind) (expected : String)
  /-- A value of the right kind outside the range of the type. -/
  | outOfRange (found : Kind) (expected : String)
  /-- An array with too few or too many items. -/
  | wrongLength (length : Nat) (expected : String)
  /-- A name that is none of the variants. -/
  | unknownVariant (name : String) (first second : String)
  /-- A member that has to be there and is not. -/
  | missingField (name : String)
  /-- A member that is there twice. -/
  | duplicateField (name : String)

/-- The wording of a mismatch. -/
def Mismatch.message : Mismatch → String
  | .wrongKind found expected => s!"invalid type: {found.text}, expected {expected}"
  | .outOfRange found expected => s!"invalid value: {found.text}, expected {expected}"
  | .wrongLength length expected => s!"invalid length {length}, expected {expected}"
  | .unknownVariant name first second =>
    s!"unknown variant `{name}`, expected `{first}` or `{second}`"
  | .missingField name => s!"missing field `{name}`"
  | .duplicateField name => s!"duplicate field `{name}`"

/-- Why a text is not the value it should be. -/
inductive DecodeError where
  /-- The text is at fault. -/
  | fault (fault : Fault)
  /-- The value is not what was expected. -/
  | mismatch (mismatch : Mismatch)

/-- Where a decoder takes its value from: straight from the text, or from a value that has been read
to its end before. -/
inductive Supply where
  | text
  | buffer
deriving DecidableEq

/-- Reads a value of a domain type from a draft. -/
abbrev Decoder (α : Type) := Supply → Draft → Except DecodeError α

namespace Draft

/-- The kind of a value that is about to be decoded. -/
def kind : Draft → Except DecodeError Kind
  | .broken read _ => .error (.fault read)
  | .null => .ok .null
  | .bool value => .ok (.bool value)
  | .number value => (value.mapError DecodeError.fault).map Kind.number
  | .string text => (text.mapError DecodeError.fault).map Kind.string
  | .array .. => .ok .sequence
  | .object .. => .ok .map

/-- The failure of a decoder that expected something else. -/
def reject {α : Type} (expected : String) (draft : Draft) : Except DecodeError α := do
  throw (.mismatch (.wrongKind (← draft.kind) expected))

end Draft

namespace Decoder

/-- A string. -/
def string : Decoder String := fun _ draft =>
  match draft with
  | .string text => text.mapError .fault
  | draft => draft.reject "a string"

/-- A truth value. -/
def bool : Decoder Bool := fun _ draft =>
  match draft with
  | .bool value => .ok value
  | draft => draft.reject "a boolean"

/-- A natural number of 32 bits. -/
def word32 : Decoder UInt32 := fun _ draft =>
  match draft with
  | .number (.ok (.natural n)) =>
    if n.toNat < UInt32.size then .ok n.toUInt32
    else .error (.mismatch (.outOfRange (.number (.natural n)) "u32"))
  | .number (.ok (.negative n)) =>
    .error (.mismatch (.outOfRange (.number (.negative n)) "u32"))
  | draft => draft.reject "u32"

/-- A value or `null`. -/
def option {α : Type} (decode : Decoder α) : Decoder (Option α) := fun supply draft =>
  match draft with
  | .null => .ok none
  | draft => (decode supply draft).map some

/-- The first fault behind the items of an array. -/
def endFault? : ArrayEnd → Option Fault
  | .closed => none
  | .cut => some .unfinished
  | .comma f => some f
  | .junk => some .malformed

/-- The items of an array, decoded from the left. -/
def list {α : Type} (decode : Decoder α) : Decoder (List α) := fun supply draft =>
  match draft with
  | .array items ending => do
    let values ← items.mapM (decode supply)
    match endFault? ending with
    | some f => throw (.fault f)
    | none => return values
  | draft => draft.reject "a sequence"

/-- Nothing: `null`, or an empty object that has been read before. -/
def unit : Decoder Unit := fun supply draft =>
  match supply, draft with
  | _, .null => .ok ()
  | .buffer, .object [] _ _ => .ok ()
  | _, draft => draft.reject "unit"

/-- One of two named variants. -/
structure Variants (α : Type) where
  /-- The first name and its variant. -/
  first : String × α
  /-- The second name and its variant. -/
  second : String × α

/-- The variant of a name. -/
def Variants.select {α : Type} (variants : Variants α) (name : String) : Except DecodeError α :=
  if name = variants.first.1 then .ok variants.first.2
  else if name = variants.second.1 then .ok variants.second.2
  else .error (.mismatch (.unknownVariant name variants.first.1 variants.second.1))

/-- The variant whose name a draft holds. -/
def Variants.name {α : Type} (variants : Variants α) (draft : Draft) : Except DecodeError α :=
  match draft with
  | .string text => do variants.select (← text.mapError .fault)
  | draft => draft.reject "variant identifier"

/-- A variant is written as its name or as an object that maps the name to nothing.  In a text any
other value is malformed; of a value that has been read before the kind is reported. -/
def variant {α : Type} (variants : Variants α) : Decoder α := fun supply draft =>
  match draft with
  | .string text => do variants.select (← text.mapError .fault)
  | .object members stray ending =>
    match supply with
    | .text =>
      match members, stray with
      | [], none => .error (.fault (ending.elim .malformed Prod.fst))
      | [], some key => do
        let _ ← variants.name key
        throw (.fault .malformed)
      | (name, value) :: others, _ => do
        let chosen ← variants.select (← name.mapError .fault)
        unit supply value
        if others.isEmpty then
          match ending with
          | none => return chosen
          | some (f, _) => throw (.fault f)
        else throw (.fault .malformed)
    | .buffer =>
      match members with
      | [(name, value)] => do
        let chosen ← variants.select (← name.mapError .fault)
        unit supply value
        return chosen
      | _ => .error (.mismatch (.outOfRange .map "map with a single key"))
  | draft =>
    match supply, draft with
    | .buffer, draft => draft.reject "string or map"
    | .text, .broken read _ => .error (.fault read)
    | .text, _ => .error (.fault .malformed)

end Decoder

/-- What is known of a record while its fields are taken: the members of an object or the items of
an array. -/
inductive Shape where
  | object
  | array
deriving DecidableEq

/-- A field of a record: its name and whether a draft is a value for it. -/
structure Field where
  /-- The name of the member. -/
  name : String
  /-- The decoder's verdict on a value of this field. -/
  check : Supply → Draft → Except DecodeError Unit

/-- What a field is when it is not given. -/
inductive Absent (α : Type) where
  /-- It has to be given. -/
  | required
  /-- It has a value of its own. -/
  | default (value : α)
  /-- It has a value of its own in an object and has to be given in an array. -/
  | nullable (value : α)

/-- How a record type is read: its fields in order, and how their values make a record.  `expected`
names the whole type in a message about an array that is too short. -/
structure Record (α : Type) where
  /-- The fields in order. -/
  fields : List Field
  /-- The record of the values found by their places. -/
  assemble : Supply → Shape → (expected : String) → (Nat → Option Draft) → Except DecodeError α

namespace Record

/-- A record with no field yet. -/
def start {α : Type} (make : α) : Record α := ⟨[], fun _ _ _ _ => .ok make⟩

/-- One more field, with the value it has when it is not given. -/
def field {α β : Type} (record : Record (α → β)) (name : String) (decode : Decoder α)
    (absent : Absent α) : Record β where
  fields := record.fields ++ [⟨name, fun supply draft => (decode supply draft).map fun _ => ()⟩]
  assemble supply shape expected given := do
    let make ← record.assemble supply shape expected given
    let place := record.fields.length
    match given place, absent, shape with
    | some draft, _, _ => return make (← decode supply draft)
    | none, .default value, _ | none, .nullable value, .object => return make value
    | none, .required, .object => throw (.mismatch (.missingField name))
    | none, _, .array => throw (.mismatch (.wrongLength place expected))

/-- A field that has to be given. -/
def required {α β : Type} (record : Record (α → β)) (name : String) (decode : Decoder α) :
    Record β := record.field name decode .required

/-- A field with a default. -/
def defaulted {α β : Type} (record : Record (α → β)) (name : String) (decode : Decoder α)
    (value : α) : Record β := record.field name decode (.default value)

/-- The members of an object, checked from the left; the names met before are in `seen`. -/
def checkMembers (fields : List Field) (supply : Supply) :
    List String → List (Except Fault String × Draft) → Except DecodeError (List (String × Draft))
  | _, [] => .ok []
  | seen, (name, value) :: members => do
    let name ← name.mapError .fault
    match fields.find? (·.name = name) with
    | some field =>
      if seen.contains name then throw (.mismatch (.duplicateField name))
      field.check supply value
      return (name, value) :: (← checkMembers fields supply (name :: seen) members)
    | none =>
      match value.skipFault? with
      | some f => throw (.fault f)
      | none => checkMembers fields supply seen members

/-- The items of an array, checked against the fields from the left; the rest is left over. -/
def checkItems (supply : Supply) : List Field → List Draft → Except DecodeError (List Draft)
  | [], items => .ok items
  | _, [] => .ok []
  | field :: fields, item :: items => do
    field.check supply item
    checkItems supply fields items

/-- The number of items that an array for this record has, in words. -/
def count (n : Nat) (noun : String) : String :=
  if n = 1 then s!"1 {noun}" else s!"{n} {noun}s"

/-- A record is written as an object, with other members ignored, or as an array of its fields in
order.  `described` names the type in messages. -/
def decode {α : Type} (record : Record α) (described : String) : Decoder α := fun supply draft =>
  match draft with
  | .object members stray ending => do
    let known ← checkMembers record.fields supply [] members
    if stray.isSome then throw (.fault .malformed)
    match ending with
    | some (f, _) => throw (.fault f)
    | none =>
      record.assemble supply .object described fun place =>
        record.fields[place]?.bind fun field => known.lookup field.name
  | .array items ending => do
    let size := record.fields.length
    let sizeText := count size "element"
    let extra ← checkItems supply record.fields items
    if items.length < size then
      match Decoder.endFault? ending with
      | some f => throw (.fault f)
      | none => pure ()
    let value ← record.assemble supply .array s!"{described} with {sizeText}"
      fun place => items[place]?
    match supply, extra, ending with
    | _, [], .closed => return value
    | .text, [], .cut => throw (.fault .unfinished)
    | .text, _, _ => throw (.fault .malformed)
    | .buffer, _, _ =>
      throw (.mismatch (.wrongLength items.length s!"{sizeText} in sequence"))
  | draft => draft.reject described

end Record

mutual

/-- The value of a draft that is read to its end, arrays and objects nested at most `depth` deep. -/
def Draft.toJson : Nat → Draft → Except Fault Json
  | _, .broken read _ => .error read
  | _, .null => .ok .null
  | _, .bool value => .ok (.bool value)
  | _, .number value => value.map .number
  | _, .string text => text.map .string
  | 0, .array .. | 0, .object .. => .error .malformed
  | depth + 1, .array items ending =>
    match Draft.toItems depth items with
    | .error f => .error f
    | .ok values =>
      match Decoder.endFault? ending with
      | some f => .error f
      | none => .ok (.array values)
  | depth + 1, .object members stray ending =>
    match Draft.toMembers depth members with
    | .error f => .error f
    | .ok values =>
      if stray.isSome then .error .malformed
      else
        match ending with
        | some (f, _) => .error f
        | none => .ok (.object values)

/-- The values of the items of an array. -/
def Draft.toItems : Nat → List Draft → Except Fault (List Json)
  | _, [] => .ok []
  | depth, item :: items =>
    match Draft.toJson depth item with
    | .error f => .error f
    | .ok value => (Draft.toItems depth items).map (value :: ·)

/-- The values of the members of an object. -/
def Draft.toMembers : Nat → List (Except Fault String × Draft) →
    Except Fault (List (String × Json))
  | _, [] => .ok []
  | _, (.error f, _) :: _ => .error f
  | depth, (.ok name, value) :: members =>
    match Draft.toJson depth value with
    | .error f => .error f
    | .ok value => (Draft.toMembers depth members).map ((name, value) :: ·)

end

/-- How deep arrays and objects may be nested in a value that is read to its end. -/
def depthLimit : Nat := 127

/-- The value that a text denotes: nothing may follow it. -/
def decodeText {α : Type} (decode : Decoder α) (text : String) : Except DecodeError α := do
  let document := Document.ofText text
  let value ← decode .text document.root
  if document.trailing then throw (.fault .malformed)
  return value

end ScriptAssembly.Json
