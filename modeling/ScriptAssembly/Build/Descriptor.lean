import ScriptAssembly.Json.Decode
import ScriptAssembly.Path
import ScriptAssembly.Path.Set
import ScriptAssembly.Symbols

/-!
# Build descriptors

A descriptor holds all that one compiler invocation needs: where the binary goes, what it links
against, the option that switches the symbols on, the sources and the kind of binary.
-/

namespace ScriptAssembly

namespace Path

/-- A path is written as its text. -/
def toJson (p : Path) : Json := .string p.text

/-- A path is read from any string. -/
def decode : Json.Decoder Path := fun _ draft =>
  match draft with
  | .string text => (text.mapError .fault).map Path.mk
  | draft => draft.reject "path string"

end Path

/-- A list of paths is written as an array of their texts. -/
def PathSet.toJson (paths : PathSet) : Json := .array (paths.toList.map Path.toJson)

/-- Of several spellings of a path the first is kept. -/
def PathSet.decode : Json.Decoder PathSet := fun supply draft =>
  (Json.Decoder.list Path.decode supply draft).map PathSet.ofList

/-- A set of symbols is written as an array in increasing order. -/
def SymbolSet.toJson (symbols : SymbolSet) : Json := .array (symbols.toList.map .string)

/-- The symbols may be listed in any order and repeatedly. -/
def SymbolSet.decode : Json.Decoder SymbolSet := fun supply draft =>
  (Json.Decoder.list Json.Decoder.string supply draft).map SymbolSet.ofList

/-- What kind of binary a build makes. -/
inductive OutputKind where
  /-- A library for other programs to link against. -/
  | library
  /-- A program with an entry point. -/
  | executable
deriving DecidableEq, Repr, Inhabited

namespace OutputKind

/-- The kind that `executable` asks for. -/
def ofFlag (executable : Bool) : OutputKind := if executable then .executable else .library

/-- The kind as persisted files name it. -/
def text : OutputKind → String
  | .library => "library"
  | .executable => "executable"

/-- The kind as reports name it. -/
def title : OutputKind → String
  | .library => "Library"
  | .executable => "Executable"

/-- The value of the compiler's `-target:` switch. -/
def target : OutputKind → String
  | .library => "library"
  | .executable => "exe"

/-- A kind is written as its name. -/
def toJson (kind : OutputKind) : Json := .string kind.text

/-- A kind is read from its name. -/
def decode : Json.Decoder OutputKind :=
  Json.Decoder.variant ⟨("library", .library), ("executable", .executable)⟩

end OutputKind

/-- The inputs of one compiler invocation. -/
structure Descriptor where
  /-- Where the binary is written. -/
  outputPath : Path
  /-- The binaries it links against, in order. -/
  references : List Path
  /-- The option that switches the symbols on, if any symbol is set. -/
  compilerOptions : Option String
  /-- The sources, in order. -/
  sources : List Path
  /-- The kind of binary. -/
  kind : OutputKind
deriving DecidableEq, Repr

namespace Descriptor

/-- The persisted form. -/
def toJson (d : Descriptor) : Json := .object [
  ("output_path", d.outputPath.toJson),
  ("references", .array (d.references.map Path.toJson)),
  ("compiler_options", Json.ofOption .string d.compilerOptions),
  ("sources", .array (d.sources.map Path.toJson)),
  ("kind", d.kind.toJson)]

/-- The fields of the persisted form. -/
def record : Json.Record Descriptor :=
  Json.Record.start Descriptor.mk
    |>.required "output_path" Path.decode
    |>.required "references" (Json.Decoder.list Path.decode)
    |>.field "compiler_options" (Json.Decoder.option Json.Decoder.string) (.nullable none)
    |>.required "sources" (Json.Decoder.list Path.decode)
    |>.required "kind" OutputKind.decode

/-- Reads the persisted form. -/
def decode : Json.Decoder Descriptor := record.decode "struct BuildDescriptor"

end Descriptor

end ScriptAssembly
