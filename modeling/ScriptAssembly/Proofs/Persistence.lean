import ScriptAssembly.Build.Outcome
import ScriptAssembly.Build.Stamp
import ScriptAssembly.Manifest
import ScriptAssembly.Project.Config
import ScriptAssembly.Proofs.Json.Reading
import ScriptAssembly.Proofs.Json.Record
import ScriptAssembly.Proofs.Sets

/-!
# Persisted values are read back

Every type with a persisted form is read back from it: the printed form of a value is decoded as
that value, with every path and every string spelled as it was.  For each type there is a lemma that
decodes the draft of the persisted form, and one that the form holds no numbers but natural ones.
-/

namespace ScriptAssembly

open Json

namespace Json

@[simp]
theorem plain_null : Json.null.Plain := trivial

@[simp]
theorem plain_bool (value : Bool) : (Json.bool value).Plain := trivial

@[simp]
theorem plain_string (value : String) : (Json.string value).Plain := trivial

@[simp]
theorem plain_ofNat (n : Nat) : (ofNat n).Plain := trivial

@[simp]
theorem plain_array (items : List Json) : (Json.array items).Plain ↔ ∀ item ∈ items, item.Plain :=
  plainItems_iff items

@[simp]
theorem plain_object (members : List (String × Json)) :
    (Json.object members).Plain ↔ ∀ member ∈ members, member.2.Plain :=
  plainMembers_iff members

@[simp]
theorem plain_ofOption {α : Type} {encode : α → Json} {value : Option α} :
    (ofOption encode value).Plain ↔ ∀ x ∈ value, (encode x).Plain := by
  cases value <;> simp [ofOption]

@[simp]
theorem forall_mem_optionalMember {α : Type} {encode : α → Json} {name : String}
    {value : Option α} {holds : String × Json → Prop} :
    (∀ member ∈ optionalMember name encode value, holds member) ↔
      ∀ x ∈ value, holds (name, encode x) := by
  cases value <;> simp [optionalMember]

theorem option_string (supply : Supply) (value : Option String) :
    Decoder.option Decoder.string supply (Draft.ofJson (ofOption .string value)) = .ok value :=
  Decoder.option_ofOption (fun _ => rfl) value

theorem list_string (supply : Supply) (values : List String) :
    Decoder.list Decoder.string supply (Draft.ofJson (.array (values.map .string))) =
      .ok values :=
  Decoder.list_map fun _ _ => rfl

theorem word32_ofNat (supply : Supply) (n : UInt32) :
    Decoder.word32 supply (Draft.ofJson (ofNat n.toNat)) = .ok n := by
  have hsize : n.toNat < UInt32.size := n.toNat_lt_size
  simp [Decoder.word32, ofNat, Draft.ofJson, hsize]

/-- Arrays and objects are nested at most `depth` deep in the value. -/
def NestedIn : Nat → Json → Prop
  | depth + 1, .array items => ∀ item ∈ items, NestedIn depth item
  | depth + 1, .object members => ∀ member ∈ members, NestedIn depth member.2
  | 0, .array _ | 0, .object _ => False
  | _, _ => True

theorem nestedIn_string (depth : Nat) (text : String) : (Json.string text).NestedIn depth := by
  cases depth <;> trivial

theorem nestedIn_ofNat (depth n : Nat) : (ofNat n).NestedIn depth := by
  cases depth <;> trivial

theorem Draft.toItems_ofItems {depth : Nat} {items : List Json}
    (hread : ∀ item ∈ items, Draft.toJson depth (ofJson item) = .ok item) :
    Draft.toItems depth (ofItems items) = .ok items := by
  induction items with
  | nil => rfl
  | cons item items ih =>
      have hrest := ih fun other hother => hread other (List.mem_cons_of_mem item hother)
      rw [ofItems, Draft.toItems, hread item List.mem_cons_self, hrest]
      rfl

theorem Draft.toMembers_ofMembers {depth : Nat} {members : List (String × Json)}
    (hread : ∀ member ∈ members, Draft.toJson depth (ofJson member.2) = .ok member.2) :
    Draft.toMembers depth (ofMembers members) = .ok members := by
  induction members with
  | nil => rfl
  | cons member members ih =>
      have hrest := ih fun other hother => hread other (List.mem_cons_of_mem member hother)
      rw [ofMembers, Draft.toMembers, hread member List.mem_cons_self, hrest]
      rfl

/-- The draft of a value that is not nested too deep is read to its end as that value. -/
theorem Draft.toJson_ofJson {depth : Nat} {value : Json} (hnested : value.NestedIn depth) :
    Draft.toJson depth (ofJson value) = .ok value := by
  induction depth generalizing value with
  | zero =>
      cases value with
      | array items => exact hnested.elim
      | object members => exact hnested.elim
      | _ => rfl
  | succ depth ih =>
      cases value with
      | array items =>
          rw [ofJson, Draft.toJson, Draft.toItems_ofItems fun item hitem => ih (hnested item hitem)]
          rfl
      | object members =>
          rw [ofJson, Draft.toJson,
            Draft.toMembers_ofMembers fun member hmember => ih (hnested member hmember)]
          rfl
      | _ => rfl

end Json

theorem Path.list_decode (supply : Supply) (paths : List Path) :
    Decoder.list Path.decode supply (Draft.ofJson (.array (paths.map Path.toJson))) =
      .ok paths :=
  Decoder.list_map fun _ _ => rfl

theorem PathSet.decode_toJson (supply : Supply) (paths : PathSet) :
    PathSet.decode supply (Draft.ofJson paths.toJson) = .ok paths := by
  rw [PathSet.decode, PathSet.toJson, Path.list_decode]
  exact congrArg Except.ok (PathSet.ofList_toList paths)

@[simp]
theorem Path.plain_toJson (p : Path) : p.toJson.Plain := trivial

@[simp]
theorem PathSet.plain_toJson (paths : PathSet) : paths.toJson.Plain := by
  simp [PathSet.toJson]

theorem SymbolSet.decode_toJson (supply : Supply) (symbols : SymbolSet) :
    SymbolSet.decode supply (Draft.ofJson symbols.toJson) = .ok symbols := by
  rw [SymbolSet.decode, SymbolSet.toJson, list_string]
  exact congrArg Except.ok (SymbolSet.ofList_toList symbols)

@[simp]
theorem SymbolSet.plain_toJson (symbols : SymbolSet) : symbols.toJson.Plain := by
  simp [SymbolSet.toJson]

theorem OutputKind.decode_toJson (supply : Supply) (kind : OutputKind) :
    OutputKind.decode supply (Draft.ofJson kind.toJson) = .ok kind := by
  cases kind <;> rfl

@[simp]
theorem OutputKind.plain_toJson (kind : OutputKind) : kind.toJson.Plain := trivial

namespace Descriptor

theorem decode_toJson (supply : Supply) (d : Descriptor) :
    decode supply (Draft.ofJson d.toJson) = .ok d := by
  apply Record.Makes.decode
  · exact Record.makes_start Descriptor.mk supply
      |>.given rfl
      |>.given (Path.list_decode supply d.references)
      |>.given (option_string supply d.compilerOptions)
      |>.given (Path.list_decode supply d.sources)
      |>.given (OutputKind.decode_toJson supply d.kind)
  · decide

@[simp]
theorem plain_toJson (d : Descriptor) : d.toJson.Plain := by
  simp [toJson]

end Descriptor

namespace Session

theorem decode_toJson (supply : Supply) (s : Session) :
    decode supply (Draft.ofJson s.toJson) = .ok s := by
  apply Record.Makes.decode
  · exact Record.makes_start Session.mk supply
      |>.given (PathSet.decode_toJson supply s.references)
      |>.given (PathSet.decode_toJson supply s.folders)
      |>.given (PathSet.decode_toJson supply s.sources)
      |>.given (SymbolSet.decode_toJson supply s.symbols)
      |>.given rfl
      |>.given (OutputKind.decode_toJson supply s.outputKind)
  · decide

@[simp]
theorem plain_toJson (s : Session) : s.toJson.Plain := by
  simp [toJson]

end Session

namespace Config

theorem decode_toJson (supply : Supply) (c : Config) :
    decode supply (Draft.ofJson c.toJson) = .ok c := by
  apply Record.Makes.decode
  simp only [drafts_append]
  · exact Record.makes_start Config.mk supply
      |>.given rfl
      |>.given (option_string supply c.description)
      |>.given rfl
      |>.given rfl
      |>.given rfl
      |>.optional (fun _ => rfl) c.defaultBackend
      |>.optional (fun _ => rfl) c.compilerPath
      |>.given (Session.decode_toJson supply c.session)
  · decide

@[simp]
theorem plain_toJson (c : Config) : c.toJson.Plain := by
  rw [toJson, plain_object]
  simp only [List.forall_mem_append, forall_mem_optionalMember]
  simp

end Config

namespace Severity

theorem decode_toJson (supply : Supply) (severity : Severity) :
    decode supply (Draft.ofJson severity.toJson) = .ok severity := by
  cases severity <;> rfl

@[simp]
theorem plain_toJson (severity : Severity) : severity.toJson.Plain := trivial

end Severity

namespace Diagnostic

theorem option_word32 (supply : Supply) (n : UInt32) :
    Decoder.option Decoder.word32 supply (Draft.ofJson (ofNat n.toNat)) = .ok (some n) :=
  congrArg (Except.map some) (word32_ofNat supply n)

theorem decode_toJson (supply : Supply) (d : Diagnostic) :
    decode supply (Draft.ofJson d.toJson) = .ok d := by
  apply Record.Makes.decode
  simp only [drafts_append]
  · exact Record.makes_start Diagnostic.mk supply
      |>.given (Severity.decode_toJson supply d.severity)
      |>.optional (fun _ => rfl) d.file
      |>.optional (option_word32 supply) d.line
      |>.optional (option_word32 supply) d.column
      |>.optional (fun _ => rfl) d.code
      |>.given rfl
  · decide

/-- Whatever holds of scalars holds of the members of a persisted diagnostic. -/
theorem forall_mem_toJson (d : Diagnostic) {holds : Json → Prop}
    (hstring : ∀ text, holds (.string text)) (hnumber : ∀ n, holds (ofNat n)) :
    ∃ members, d.toJson = .object members ∧ ∀ member ∈ members, holds member.2 := by
  refine ⟨_, rfl, ?_⟩
  simp only [List.forall_mem_append, forall_mem_optionalMember, List.forall_mem_singleton]
  exact ⟨⟨⟨⟨⟨hstring _, fun _ _ => hstring _⟩, fun _ _ => hnumber _⟩, fun _ _ => hnumber _⟩,
    fun _ _ => hstring _⟩, hstring _⟩

@[simp]
theorem plain_toJson (d : Diagnostic) : d.toJson.Plain := by
  obtain ⟨members, hform, hplain⟩ := d.forall_mem_toJson plain_string plain_ofNat
  rw [hform, plain_object]
  exact hplain

theorem list_decode (supply : Supply) (diagnostics : List Diagnostic) :
    Decoder.list decode supply (Draft.ofJson (.array (diagnostics.map toJson))) =
      .ok diagnostics :=
  Decoder.list_map fun d _ => d.decode_toJson supply

end Diagnostic

namespace Outcome

theorem decode_toJson (supply : Supply) (o : Outcome) :
    decode supply (Draft.ofJson o.toJson) = .ok o := by
  apply Record.Makes.decode
  · exact Record.makes_start Outcome.mk supply
      |>.given rfl
      |>.given (Diagnostic.list_decode supply o.diagnostics)
      |>.given rfl
  · decide

@[simp]
theorem plain_toJson (o : Outcome) : o.toJson.Plain := by
  simp [toJson]

end Outcome

namespace BuildResult

theorem nestedIn_diagnostics (depth : Nat) (diagnostics : List Diagnostic) :
    (Json.array (diagnostics.map Diagnostic.toJson)).NestedIn (depth + 2) := by
  intro item hitem
  obtain ⟨d, -, rfl⟩ := List.mem_map.mp hitem
  obtain ⟨members, hform, hscalar⟩ :=
    d.forall_mem_toJson (nestedIn_string depth) (nestedIn_ofNat depth)
  rw [hform]
  exact hscalar

/-- The status is split off a result that starts with it. -/
theorem splitStatus_object {status : String} {success : Bool}
    (hstatus : statuses.select status = .ok success) {name : String} (hname : name ≠ "status")
    {value : Json} (hvalue : value.NestedIn (depthLimit - 1)) :
    splitStatus none [(.ok "status", .string (.ok status)), (.ok name, Draft.ofJson value)] =
      .ok (some success, [(name, value)]) := by
  have hread := Draft.toJson_ofJson hvalue
  simp only [splitStatus, Decoder.Variants.name, Except.mapError, hstatus, hname, hread, bind,
    Except.bind, pure, Except.pure, if_true, if_false]
  rfl

theorem decode_object (supply : Supply) {status : String} {success : Bool}
    (hstatus : statuses.select status = .ok success) {name : String} (hname : name ≠ "status")
    {value : Json} (hvalue : value.NestedIn (depthLimit - 1)) :
    decode supply (Draft.ofJson (.object [("status", .string status), (name, value)])) =
      decodeBody success .buffer (Draft.ofJson (.object [(name, value)])) := by
  rw [ofJson_object]
  simp only [decode, drafts, List.map_cons, List.map_nil, Draft.ofJson,
    splitStatus_object hstatus hname hvalue, bind, Except.bind]
  rfl

theorem decode_toJson (supply : Supply) (result : BuildResult) :
    decode supply (Draft.ofJson result.toJson) = .ok result := by
  cases result with
  | success output =>
      have hstatus : statuses.select "success" = .ok true := rfl
      have hnested : output.toJson.NestedIn (depthLimit - 1) := nestedIn_string _ output.text
      rw [toJson, decode_object supply hstatus (by decide) hnested]
      apply Record.Makes.decode
      · exact Record.makes_start BuildResult.success .buffer |>.given rfl
      · decide
  | failure diagnostics =>
      have hstatus : statuses.select "failure" = .ok false := rfl
      rw [toJson, decode_object supply hstatus (by decide) (nestedIn_diagnostics _ diagnostics)]
      apply Record.Makes.decode
      · exact Record.makes_start BuildResult.failure .buffer
          |>.given (Diagnostic.list_decode .buffer diagnostics)
      · decide

@[simp]
theorem plain_toJson (result : BuildResult) : result.toJson.Plain := by
  cases result <;> simp [toJson]

end BuildResult

namespace Manifest

theorem decode_toJson (supply : Supply) (manifest : Manifest) :
    decode supply (Draft.ofJson manifest.toJson) = .ok manifest := by
  apply Record.Makes.decode
  · exact Record.makes_start Manifest.mk supply
      |>.given rfl
      |>.given (option_string supply manifest.outputDirectory)
      |>.given (list_string supply manifest.references)
      |>.given (list_string supply manifest.folders)
      |>.given (option_string supply manifest.symbols)
      |>.given rfl
      |>.given rfl
      |>.given (option_string supply manifest.backend)
      |>.given (option_string supply manifest.sourceExtension)
  · decide

@[simp]
theorem plain_toJson (manifest : Manifest) : manifest.toJson.Plain := by
  simp [toJson]

end Manifest

namespace Stamp

theorem decode_toJson (supply : Supply) (stamp : Stamp) :
    decode supply (Draft.ofJson stamp.toJson) = .ok stamp := by
  apply Record.Makes.decode
  · exact Record.makes_start Stamp.mk supply
      |>.given rfl
      |>.given (option_string supply stamp.digest)
      |>.given rfl
  · decide

@[simp]
theorem plain_toJson (stamp : Stamp) : stamp.toJson.Plain := by
  simp [toJson]

end Stamp

section Printed

variable {α : Type} {decode : Decoder α} {toJson : α → Json}

/-- A value printed by `toJson` is read back as it was, and any text in which a value is read
has a printed form that is read as the same value and printed as itself. -/
def Faithful (decode : Decoder α) (toJson : α → Json) : Prop :=
  (∀ value, decodeText decode (toJson value).pretty = .ok value) ∧
  ∀ text value, decodeText decode text = .ok value →
    ∃ again, decodeText decode (toJson value).pretty = .ok again ∧
      again = value ∧ (toJson again).pretty = (toJson value).pretty

theorem faithful_of_decode_toJson (hplain : ∀ value, (toJson value).Plain)
    (hread : ∀ supply value, decode supply (Draft.ofJson (toJson value)) = .ok value) :
    Faithful decode toJson := by
  have hprinted : ∀ value, decodeText decode (toJson value).pretty = .ok value := by
    intro value
    rw [decodeText_pretty decode (hplain value), hread .text value]
  exact ⟨hprinted, fun _ value _ => ⟨value, hprinted value, rfl, rfl⟩⟩

/-- Every persisted type is faithful to its printed form. -/
theorem persisted_types_faithful :
    Faithful Config.decode Config.toJson ∧
    Faithful Session.decode Session.toJson ∧
    Faithful PathSet.decode PathSet.toJson ∧
    Faithful SymbolSet.decode SymbolSet.toJson ∧
    Faithful Descriptor.decode Descriptor.toJson ∧
    Faithful Diagnostic.decode Diagnostic.toJson ∧
    Faithful Outcome.decode Outcome.toJson ∧
    Faithful BuildResult.decode BuildResult.toJson ∧
    Faithful Manifest.decode Manifest.toJson := by
  refine ⟨?_, ?_, ?_, ?_, ?_, ?_, ?_, ?_, ?_⟩
  · exact faithful_of_decode_toJson Config.plain_toJson Config.decode_toJson
  · exact faithful_of_decode_toJson Session.plain_toJson Session.decode_toJson
  · exact faithful_of_decode_toJson PathSet.plain_toJson PathSet.decode_toJson
  · exact faithful_of_decode_toJson SymbolSet.plain_toJson SymbolSet.decode_toJson
  · exact faithful_of_decode_toJson Descriptor.plain_toJson Descriptor.decode_toJson
  · exact faithful_of_decode_toJson Diagnostic.plain_toJson Diagnostic.decode_toJson
  · exact faithful_of_decode_toJson Outcome.plain_toJson Outcome.decode_toJson
  · exact faithful_of_decode_toJson BuildResult.plain_toJson BuildResult.decode_toJson
  · exact faithful_of_decode_toJson Manifest.plain_toJson Manifest.decode_toJson

end Printed

theorem Manifest.decode_pretty (manifest : Manifest) :
    decodeText Manifest.decode manifest.toJson.pretty = .ok manifest :=
  (faithful_of_decode_toJson Manifest.plain_toJson Manifest.decode_toJson).1 manifest

theorem Stamp.decode_pretty (stamp : Stamp) :
    decodeText Stamp.decode stamp.toJson.pretty = .ok stamp :=
  (faithful_of_decode_toJson Stamp.plain_toJson Stamp.decode_toJson).1 stamp

theorem Config.decode_pretty (c : Config) : decodeText Config.decode c.toJson.pretty = .ok c :=
  (faithful_of_decode_toJson Config.plain_toJson Config.decode_toJson).1 c

theorem Config.eq_of_pretty_eq {c other : Config}
    (hsame : c.toJson.pretty = other.toJson.pretty) : c = other := by
  have hdecode := decode_pretty c
  rw [hsame, decode_pretty] at hdecode
  exact (Except.ok.inj hdecode).symm

end ScriptAssembly
