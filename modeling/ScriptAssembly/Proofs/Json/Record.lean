import Mathlib
import ScriptAssembly.Json.Decode

/-!
# Reading back records

A record is read from an object by taking up its fields one after the other.  `Reads` says that the
members of an object make up a value; each way of adding a field to a record has a lemma that says
what the new member adds to the value, provided that the names of the fields differ.  An object
whose members make up a value is decoded as that value.
-/

namespace ScriptAssembly.Json

namespace Decoder

theorem option_ofOption {α : Type} {decode : Decoder α} {encode : α → Json} {supply : Supply}
    (hread : ∀ x, option decode supply (Draft.ofJson (encode x)) = .ok (some x))
    (value : Option α) :
    option decode supply (Draft.ofJson (ofOption encode value)) = .ok value := by
  cases value with
  | none => rfl
  | some x => exact hread x

theorem mapM_map_ofJson {α : Type} {decode : Decoder α} {encode : α → Json} {supply : Supply}
    {values : List α} (hread : ∀ x ∈ values, decode supply (Draft.ofJson (encode x)) = .ok x) :
    (Draft.ofItems (values.map encode)).mapM (decode supply) = .ok values := by
  induction values with
  | nil => rfl
  | cons x values ih =>
      have hrest := ih fun y hy => hread y (List.mem_cons_of_mem x hy)
      simp only [List.map_cons, Draft.ofItems, List.mapM_cons, hrest,
        hread x List.mem_cons_self, bind, Except.bind, pure, Except.pure]

theorem list_map {α : Type} {decode : Decoder α} {encode : α → Json} {supply : Supply}
    {values : List α} (hread : ∀ x ∈ values, decode supply (Draft.ofJson (encode x)) = .ok x) :
    list decode supply (Draft.ofJson (.array (values.map encode))) = .ok values := by
  simp only [list, Draft.ofJson, mapM_map_ofJson hread, endFault?, bind, Except.bind, pure,
    Except.pure]

end Decoder

/-- The drafts of the members of an object, by name. -/
def drafts (members : List (String × Json)) : List (String × Draft) :=
  members.map fun member => (member.1, Draft.ofJson member.2)

theorem drafts_append (left right : List (String × Json)) :
    drafts (left ++ right) = drafts left ++ drafts right := List.map_append

theorem ofJson_object (members : List (String × Json)) :
    Draft.ofJson (.object members) =
      .object ((drafts members).map fun member => (.ok member.1, member.2)) none none := by
  have hmembers : Draft.ofMembers members =
      (drafts members).map fun member => (.ok member.1, member.2) := by
    induction members with
    | nil => rfl
    | cons member members ih =>
        obtain ⟨name, value⟩ := member
        simp only [Draft.ofMembers, ih]
        rfl
  rw [Draft.ofJson, hmembers]

namespace Record

variable {α β : Type} {record : Record (α → β)} {supply : Supply} {name : String}
  {decoder : Decoder α} {members : List (String × Draft)} {make : α → β} {value : α}

/-- The names of the fields in order. -/
def names {γ : Type} (record : Record γ) : List String := record.fields.map Field.name

/-- The members make up the value: each belongs to a field of its own, and the fields found in them
are assembled to the value. -/
structure Reads {γ : Type} (record : Record γ) (supply : Supply)
    (members : List (String × Draft)) (value : γ) : Prop where
  /-- No two fields have one name. -/
  distinct : record.names.Nodup
  /-- No member is given twice. -/
  once : (members.map Prod.fst).Nodup
  /-- Every member is a value for a field. -/
  known : ∀ member ∈ members, ∃ field ∈ record.fields,
    field.name = member.1 ∧ field.check supply member.2 = .ok ()
  /-- The members found by the names of the fields make the value. -/
  assembled : ∀ (expected : String) (given : Nat → Option Draft),
    (∀ place field, record.fields[place]? = some field →
      given place = members.lookup field.name) →
    record.assemble supply .object expected given = .ok value

theorem reads_start {γ : Type} (value : γ) (supply : Supply) :
    (start value).Reads supply [] value where
  distinct := List.nodup_nil
  once := List.nodup_nil
  known := by simp
  assembled _ _ _ := rfl

theorem names_field (absent : Absent α) :
    (record.field name decoder absent).names = record.names ++ [name] := by
  simp [names, field]

theorem Reads.lookup_eq_none {γ : Type} {record : Record γ} {value : γ}
    (hreads : record.Reads supply members value) (hnew : name ∉ record.names) :
    members.lookup name = none := by
  rw [List.lookup_eq_none_iff]
  intro member hmember
  obtain ⟨field, hfield, hname, -⟩ := hreads.known member hmember
  have hne : name ≠ member.1 := by
    rintro rfl
    exact hnew (List.mem_map.mpr ⟨field, hfield, hname⟩)
  simpa using hne

theorem nodup_names_field {absent : Absent α} : (record.field name decoder absent).names.Nodup ↔
    record.names.Nodup ∧ name ∉ record.names := by
  rw [names_field, ← List.concat_eq_append, List.nodup_concat, and_comm]

/-- A member for the new field gives the record its value. -/
theorem Reads.given {absent : Absent α} (hreads : record.Reads supply members make)
    {draft : Draft} (hvalue : decoder supply draft = .ok value)
    (hnew : name ∉ record.names) :
    (record.field name decoder absent).Reads supply (members ++ [(name, draft)]) (make value) where
  distinct := nodup_names_field.mpr ⟨hreads.distinct, hnew⟩
  once := by
    rw [List.map_append]
    refine List.nodup_append.mpr ⟨hreads.once, by simp, ?_⟩
    rintro other hother new hsame rfl
    obtain ⟨member, hmember, rfl⟩ := List.mem_map.mp hother
    obtain ⟨field, hfield, hname, -⟩ := hreads.known member hmember
    have hnamed : member.1 = name := by simpa using hsame
    exact hnew (hnamed ▸ List.mem_map.mpr ⟨field, hfield, hname⟩)
  known := by
    intro member hmember
    rcases List.mem_append.mp hmember with hold | hsame
    · obtain ⟨field, hfield, hcheck⟩ := hreads.known member hold
      exact ⟨field, List.mem_append_left _ hfield, hcheck⟩
    · obtain rfl := List.mem_singleton.mp hsame
      refine ⟨_, List.mem_append_right _ List.mem_cons_self, rfl, ?_⟩
      simp [hvalue, Except.map]
  assembled := by
    intro expected given hgiven
    have hold : ∀ place field, record.fields[place]? = some field →
        given place = members.lookup field.name := by
      intro place field hfield
      have hplace : (record.fields ++ [(⟨name, fun supply draft =>
          (decoder supply draft).map fun _ => ()⟩ : Field)])[place]? = some field := by
        rw [List.getElem?_append_left (List.getElem?_eq_some_iff.mp hfield).1, hfield]
      have hne : field.name ≠ name := by
        rintro rfl
        exact hnew (List.mem_map_of_mem (List.mem_of_getElem? hfield))
      rw [hgiven place field hplace, List.lookup_append]
      have hname : (field.name == name) = false := by simpa using hne
      simp [List.lookup_cons, hname]
    have hlast : given record.fields.length = some draft := by
      rw [hgiven record.fields.length _ (by simp [Record.field]; rfl), List.lookup_append]
      simp [hreads.lookup_eq_none hnew]
    simp only [Record.field, hreads.assembled expected given hold, hlast, hvalue, bind, Except.bind,
      pure, Except.pure]

/-- Without a member for it the new field has its own value. -/
theorem Reads.missing {absent : Absent α} (hreads : record.Reads supply members make)
    (hnew : name ∉ record.names) (habsent : absent = .default value ∨ absent = .nullable value) :
    (record.field name decoder absent).Reads supply members (make value) where
  distinct := nodup_names_field.mpr ⟨hreads.distinct, hnew⟩
  once := hreads.once
  known := by
    intro member hmember
    obtain ⟨field, hfield, hcheck⟩ := hreads.known member hmember
    exact ⟨field, List.mem_append_left _ hfield, hcheck⟩
  assembled := by
    intro expected given hgiven
    have hold : ∀ place field, record.fields[place]? = some field →
        given place = members.lookup field.name := by
      intro place field hfield
      refine hgiven place field ?_
      rw [Record.field, List.getElem?_append_left (List.getElem?_eq_some_iff.mp hfield).1, hfield]
    have hlast : given record.fields.length = none := by
      rw [hgiven record.fields.length _ (by simp [Record.field]; rfl)]
      exact hreads.lookup_eq_none hnew
    rcases habsent with rfl | rfl <;>
      simp only [Record.field, hreads.assembled expected given hold, hlast, bind, Except.bind, pure,
        Except.pure]

/-- A member that is left out where there is no value gives an optional field its value. -/
theorem Reads.optional {record : Record (Option α → β)} {make : Option α → β} {encode : α → Json}
    (hreads : record.Reads supply members make)
    (hread : ∀ x, Decoder.option decoder supply (Draft.ofJson (encode x)) = .ok (some x))
    (value : Option α) (hnew : name ∉ record.names) :
    (record.defaulted name (Decoder.option decoder) none).Reads supply
      (members ++ drafts (optionalMember name encode value)) (make value) := by
  cases value with
  | none =>
      rw [optionalMember, drafts, List.map_nil, List.append_nil]
      exact hreads.missing hnew (.inl rfl)
  | some x => exact hreads.given (hread x) hnew

/-- The members make up the value of the record, provided that its fields have different names. -/
def Makes {γ : Type} (record : Record γ) (supply : Supply) (members : List (String × Draft))
    (value : γ) : Prop :=
  record.names.Nodup → record.Reads supply members value

theorem makes_start {γ : Type} (value : γ) (supply : Supply) :
    (start value).Makes supply [] value := fun _ => reads_start value supply

theorem Makes.given {absent : Absent α} (hmakes : record.Makes supply members make)
    {draft : Draft} (hvalue : decoder supply draft = .ok value) :
    (record.field name decoder absent).Makes supply (members ++ [(name, draft)])
      (make value) := by
  intro hnames
  obtain ⟨hdistinct, hnew⟩ := nodup_names_field.mp hnames
  exact (hmakes hdistinct).given hvalue hnew

theorem Makes.optional {record : Record (Option α → β)} {make : Option α → β} {encode : α → Json}
    (hmakes : record.Makes supply members make)
    (hread : ∀ x, Decoder.option decoder supply (Draft.ofJson (encode x)) = .ok (some x))
    (value : Option α) :
    (record.defaulted name (Decoder.option decoder) none).Makes supply
      (members ++ drafts (optionalMember name encode value)) (make value) := by
  intro hnames
  obtain ⟨hdistinct, hnew⟩ := nodup_names_field.mp hnames
  exact (hmakes hdistinct).optional hread value hnew

theorem find?_field {fields : List Field} (hdistinct : (fields.map Field.name).Nodup)
    {field : Field} (hfield : field ∈ fields) :
    fields.find? (fun other => other.name = field.name) = some field := by
  induction fields with
  | nil => simp at hfield
  | cons first fields ih =>
      rw [List.map_cons, List.nodup_cons] at hdistinct
      rcases List.mem_cons.mp hfield with rfl | hfield
      · simp
      · have hne : first.name ≠ field.name := by
          intro heq
          exact hdistinct.1 (heq ▸ List.mem_map_of_mem hfield)
        simp [hne, ih hdistinct.2 hfield]

/-- Members that belong to fields of their own are all kept. -/
theorem checkMembers_known {fields : List Field} (hdistinct : (fields.map Field.name).Nodup)
    {seen : List String} (honce : (members.map Prod.fst).Nodup)
    (hseen : ∀ member ∈ members, member.1 ∉ seen)
    (hknown : ∀ member ∈ members, ∃ field ∈ fields,
      field.name = member.1 ∧ field.check supply member.2 = .ok ()) :
    checkMembers fields supply seen (members.map fun member => (.ok member.1, member.2)) =
      .ok members := by
  induction members generalizing seen with
  | nil => rfl
  | cons member members ih =>
      rw [List.map_cons, List.nodup_cons] at honce
      obtain ⟨field, hfield, hname, hcheck⟩ := hknown member List.mem_cons_self
      have hfind := find?_field hdistinct hfield
      rw [hname] at hfind
      have hfresh : seen.contains member.1 = false := by
        simpa using hseen member List.mem_cons_self
      have hrest := @ih (member.1 :: seen) honce.2
        (by
          intro other hother
          rw [List.mem_cons, not_or]
          refine ⟨fun heq => honce.1 (heq ▸ List.mem_map_of_mem hother), ?_⟩
          exact hseen other (List.mem_cons_of_mem _ hother))
        (fun other hother => hknown other (List.mem_cons_of_mem _ hother))
      simp only [List.map_cons, checkMembers, Except.mapError, hfind, hfresh, hcheck, hrest, bind,
        Except.bind, pure, Except.pure]
      rfl

/-- An object whose members make up a value is decoded as that value. -/
theorem Makes.decode {γ : Type} {record : Record γ} {members : List (String × Json)} {value : γ}
    (hmakes : record.Makes supply (drafts members) value) (hdistinct : record.names.Nodup)
    (described : String) :
    record.decode described supply (Draft.ofJson (.object members)) = .ok value := by
  have hreads := hmakes hdistinct
  have hfresh : ∀ member ∈ drafts members, member.1 ∉ ([] : List String) := by simp
  have hchecked := checkMembers_known hreads.distinct hreads.once hfresh hreads.known
  have hassembled := hreads.assembled described
    (fun place => record.fields[place]?.bind fun field => (drafts members).lookup field.name)
    (fun place field hfield => by simp [hfield])
  rw [ofJson_object]
  simp only [Record.decode, hchecked, hassembled, bind, Except.bind]
  rfl

end Record

end ScriptAssembly.Json
