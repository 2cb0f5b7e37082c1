import ScriptAssembly.Manifest
import ScriptAssembly.Yaml.Node

/-!
# Manifests in YAML

A manifest is a mapping; members with other keys are ignored, and each key of a manifest may be
there once.  Every scalar is a string where a string is needed, and a blank place is an empty list
or no value at all.
-/

namespace ScriptAssembly

namespace Yaml

/-- The tag of a null. -/
def nullTag : String := "tag:yaml.org,2002:null"

/-- The tag of a truth value. -/
def boolTag : String := "tag:yaml.org,2002:bool"

/-- The words for no value. -/
def nullWords : List String := ["null", "Null", "NULL", "~"]

namespace Node

/-- The text of a scalar. -/
def string? : Node → Option String
  | .scalar _ _ text => some text
  | _ => none

/-- The texts of a sequence of scalars. -/
def strings? : Node → Option (List String)
  | .sequence items => items.mapM string?
  | .scalar _ .plain "" => some []
  | _ => none

/-- The text of a scalar that may stand for no value.  Only a plain scalar can; one with the tag of
a null must. -/
def optionalString? : Node → Option (Option String)
  | .scalar none .plain text =>
    if text = "" ∨ nullWords.contains text then some none else some (some text)
  | .scalar (some tag) .plain text =>
    if tag = nullTag then
      if nullWords.contains text then some none else none
    else some (some text)
  | .scalar _ _ text => some (some text)
  | _ => none

/-- The truth value of a plain scalar, or of a literal block with the tag of one. -/
def bool? : Node → Option Bool
  | .scalar tag style text =>
    if style = .plain ∨ (style = .literal ∧ tag = some boolTag) then
      if ["true", "True", "TRUE"].contains text then some true
      else if ["false", "False", "FALSE"].contains text then some false
      else none
    else none
  | _ => none

/-- The members of a mapping by the texts of their keys; a blank place has none. -/
def members? : Node → Option (List (String × Node))
  | .mapping members => members.mapM fun (key, value) => key.string?.map fun key => (key, value)
  | .scalar _ .plain "" => some []
  | _ => none

end Node

end Yaml

namespace Manifest

/-- The value of a member, read by `read`, or a usual one if there is no such member. -/
def member {α : Type} (members : List (String × Yaml.Node)) (name : String)
    (read : Yaml.Node → Option α) (usual : α) : Option α :=
  match members.filter fun member => member.1 = name with
  | [] => some usual
  | [(_, value)] => read value
  | _ => none

/-- The manifest with the given members. -/
def ofMembers? (members : List (String × Yaml.Node)) : Option Manifest := do
  return {
    outputName := ← member members "output_name" Yaml.Node.string? empty.outputName
    outputDirectory := ← member members "output_dir" Yaml.Node.optionalString? none
    references := ← member members "references" Yaml.Node.strings? []
    folders := ← member members "folders" Yaml.Node.strings? []
    symbols := ← member members "symbols" Yaml.Node.optionalString? none
    executable := ← member members "executable" Yaml.Node.bool? empty.executable
    scan := ← member members "scan" Yaml.Node.bool? empty.scan
    backend := ← member members "backend" Yaml.Node.optionalString? none
    sourceExtension := ← member members "source_extension" Yaml.Node.optionalString? none }

/-- The manifest in a YAML text; an empty text is that of the empty manifest. -/
def ofYaml? (text : String) : Option Manifest := do
  match ← Yaml.Node.ofText? text.toList with
  | none => return empty
  | some root => ofMembers? (← root.members?)

end Manifest

end ScriptAssembly
