import ScriptAssembly.Proofs.Persistence
import ScriptAssembly.Proofs.Symbols
import ScriptAssembly.Proofs.Text.Order

/-!
# Sets of symbols are canonical

Every operation on a set of symbols is an operation on the finite set of its members, and there is
one set of symbols for each finite set: it lists the members in the order of their code points.  So
whatever operations have made a set, its delimited text, its compiler option and its persisted form
depend on the members alone, and unions are commutative, associative and idempotent on the nose.
-/

namespace ScriptAssembly

namespace FiniteSet

/-- An operation on a finite set of strings. -/
inductive Operation where
  /-- A string is put in; the answer is whether it is new. -/
  | insert (x : String)
  /-- All strings of another set are put in. -/
  | unite (other : Finset String)
  /-- The set gives way to another one. -/
  | replace (other : Finset String)
  /-- The set gives way to one that is read, if there is one; the answer is whether there is. -/
  | read (other? : Option (Finset String))

/-- The answer of an operation, if it gives one, and the set that it leaves. -/
def operate (members : Finset String) : Operation → Option Bool × Finset String
  | .insert x => (some (decide (x ∉ members)), insert x members)
  | .unite other => (none, members ∪ other)
  | .replace other => (none, other)
  | .read (some other) => (some true, other)
  | .read none => (some false, members)

end FiniteSet

namespace SymbolSet

open Operations

variable {symbols left right : SymbolSet} {x : String}

/-- An operation on a set of symbols. -/
inductive Operation where
  /-- A symbol is added; the answer is whether it is new. -/
  | insert (x : String)
  /-- Symbols are added one after the other. -/
  | extend (names : List String)
  /-- The set gives way to that of the listed symbols. -/
  | collect (names : List String)
  /-- The set gives way to that of a delimited text. -/
  | parse (value : String)
  /-- The members of another set are added. -/
  | union (other : SymbolSet)
  /-- The set gives way to the one that is read from a text; the answer is whether one is. -/
  | read (text : String)

/-- The answer of an operation, if it gives one, and the set that it leaves. -/
def operate (symbols : SymbolSet) : Operation → Option Bool × SymbolSet
  | .insert x => (some (symbols.add x).1, (symbols.add x).2)
  | .extend names => (none, symbols.insertMany names)
  | .collect names => (none, ofList names)
  | .parse value => (none, SymbolSet.parse value)
  | .union other => (none, symbols.union other)
  | .read text =>
    match Json.decodeText decode text with
    | .ok read => (some true, read)
    | .error _ => (some false, symbols)

/-- The members. -/
def members (symbols : SymbolSet) : Finset String := symbols.toList.toFinset

/-- The names in a delimited text, without the blanks around them. -/
def delimitedIn (value : String) : List String :=
  (Text.split delimiter value.toList).filterMap fun piece =>
    if Text.trim piece = [] then none else some (.ofList (Text.trim piece))

/-- The names that a text lists, if it lists any. -/
def listedIn? (text : String) : Option (List String) :=
  (Json.decodeText (Json.Decoder.list Json.Decoder.string) text).toOption

/-- What an operation does to the members. -/
def Operation.meaning : Operation → FiniteSet.Operation
  | .insert x => .insert x
  | .extend names => .unite names.toFinset
  | .collect names => .replace names.toFinset
  | .parse value => .replace (delimitedIn value).toFinset
  | .union other => .unite other.members
  | .read text => .read ((listedIn? text).map List.toFinset)

@[simp]
theorem mem_members : x ∈ symbols.members ↔ x ∈ symbols.toList := List.mem_toFinset

/-- There is one set of symbols for each finite set. -/
theorem members_injective : Function.Injective members := by
  intro left right hmembers
  apply ext_mem
  intro x
  rw [← mem_members, hmembers, mem_members]

/-- The search for a symbol ends where it would stand, and finds it if it is listed. -/
theorem isNewIn_iff {names : List String} (hincreasing : names.Pairwise (· < ·)) :
    isNewIn x names = true ↔ x ∉ names := by
  induction names with
  | nil => simp [isNewIn]
  | cons y names ih =>
      obtain ⟨hfirst, hrest⟩ := List.pairwise_cons.mp hincreasing
      rw [isNewIn, List.mem_cons, not_or]
      split
      · rename_i hlt
        have hne : x ≠ y := by
          rintro rfl
          exact String.lt_irrefl x hlt
        have hnew : x ∉ names := fun hmem =>
          String.lt_irrefl x (String.lt_trans hlt (hfirst x hmem))
        simp [hne, hnew]
      · split
        · rename_i heq
          simp [heq]
        · rename_i hne
          rw [ih hrest]
          exact ⟨fun hnew => ⟨hne, hnew⟩, fun hnew => hnew.2⟩

theorem add_eq (symbols : SymbolSet) (x : String) :
    symbols.add x = (decide (x ∉ symbols.members), symbols.insert x) := by
  rw [add, Prod.mk.injEq]
  refine ⟨?_, rfl⟩
  rw [Bool.eq_iff_iff, isNewIn_iff symbols.increasing, decide_eq_true_iff, mem_members]

theorem members_insert (symbols : SymbolSet) (x : String) :
    (symbols.insert x).members = Insert.insert x symbols.members := by
  ext y
  rw [mem_members, Finset.mem_insert, mem_members]
  exact mem_insertOrdered

theorem members_insertMany (symbols : SymbolSet) (names : List String) :
    (symbols.insertMany names).members = symbols.members ∪ names.toFinset := by
  ext x
  simp

theorem members_ofList (names : List String) : (ofList names).members = names.toFinset := by
  ext x
  simp

theorem members_union (left right : SymbolSet) :
    (left.union right).members = left.members ∪ right.members := by
  ext x
  simp

theorem mem_delimitedIn {value : String} :
    x ∈ delimitedIn value ↔ ∃ piece ∈ Text.split delimiter value.toList, Text.trim piece ≠ [] ∧
      .ofList (Text.trim piece) = x := by
  rw [delimitedIn, List.mem_filterMap]
  apply exists_congr
  intro piece
  by_cases hempty : Text.trim piece = []
  · simp [hempty]
  · simp [hempty]

theorem members_parse (value : String) :
    (SymbolSet.parse value).members = (delimitedIn value).toFinset := by
  ext x
  rw [mem_members, List.mem_toFinset, mem_parse, mem_delimitedIn]

example : (SymbolSet.parse "B; A;;B").toDelimited = "A;B" := by decide +kernel

theorem operate_read (symbols : SymbolSet) (text : String) :
    symbols.operate (.read text) =
      match listedIn? text with
      | some names => (some true, ofList names)
      | none => (some false, symbols) := by
  have hread : Json.decodeText decode text = _ := Json.decodeText_map _ ofList text
  rw [operate, hread, listedIn?]
  cases Json.decodeText (Json.Decoder.list Json.Decoder.string) text <;> rfl

theorem listedIn?_pretty (names : List String) :
    listedIn? (Json.array (names.map .string)).pretty = some names := by
  have hplain : (Json.array (names.map .string)).Plain := by simp
  rw [listedIn?, Json.decodeText_pretty _ hplain, Json.list_string]
  rfl

/-- An operation on a set of symbols is its meaning on the members. -/
theorem operate_meaning (symbols : SymbolSet) (operation : Operation) :
    FiniteSet.operate symbols.members operation.meaning =
      (symbols.operate operation).map id members := by
  cases operation with
  | insert x =>
      rw [operate, add_eq, Prod.map, members_insert]
      rfl
  | extend names =>
      rw [operate, Prod.map, members_insertMany]
      rfl
  | collect names =>
      rw [operate, Prod.map, members_ofList]
      rfl
  | parse value =>
      rw [operate, Prod.map, members_parse]
      rfl
  | union other =>
      rw [operate, Prod.map, members_union]
      rfl
  | read text =>
      rw [operate_read, Operation.meaning]
      cases listedIn? text with
      | none => rfl
      | some names =>
          rw [Prod.map, members_ofList]
          rfl

/-- The members behind operations are those of the meanings. -/
theorem members_after (symbols : SymbolSet) (operations : List Operation) :
    (after operate symbols operations).members =
      after FiniteSet.operate symbols.members (operations.map Operation.meaning) := by
  refine (after_meaning (fun symbols operation => ?_) symbols operations).symm
  rw [operate_meaning]
  rfl

theorem union_comm (left right : SymbolSet) : left.union right = right.union left := by
  apply members_injective
  rw [members_union, members_union, Finset.union_comm]

theorem union_assoc (left right other : SymbolSet) :
    (left.union right).union other = left.union (right.union other) := by
  apply members_injective
  simp only [members_union, Finset.union_assoc]

theorem union_self (symbols : SymbolSet) : symbols.union symbols = symbols := by
  apply members_injective
  rw [members_union, Finset.union_self]

/-- Symbols are listed in the order of their code points. -/
theorem pairwise_codePoints (symbols : SymbolSet) :
    symbols.toList.Pairwise fun x y => Text.codePoints x < Text.codePoints y :=
  symbols.increasing.imp Text.codePoints_lt_iff.mpr

/-- A set of symbols stands for the finite set of its members, which are listed in the strict order
of their code points.  Every operation does to them what its meaning does to the finite set, and
answers as that does: an addition tells whether the symbol is new.  Unions are commutative,
associative and idempotent.  Sets with the same members are one set; so operations that lead to the
same members lead to the same delimited text, compiler option and persisted form. -/
theorem determined_by_members :
    (∀ symbols : SymbolSet,
      (symbols.toList.Pairwise fun x y => Text.codePoints x < Text.codePoints y) ∧
      (∀ x, (symbols.contains x = true ↔ x ∈ symbols.members) ∧
        (symbols.operate (.insert x)).1 = some (decide (x ∉ symbols.members))) ∧
      symbols.size = symbols.members.card) ∧
    (∀ (symbols : SymbolSet) (operations : List Operation),
      (outcomes operate symbols operations).map (Prod.map id members) =
        outcomes FiniteSet.operate symbols.members (operations.map Operation.meaning) ∧
      (after operate symbols operations).members =
        after FiniteSet.operate symbols.members (operations.map Operation.meaning)) ∧
    (∀ names : List String, listedIn? (Json.array (names.map .string)).pretty = some names) ∧
    (∀ left right other : SymbolSet, left.union right = right.union left ∧
      (left.union right).union other = left.union (right.union other) ∧
      left.union left = left) ∧
    ∀ (symbols anew : SymbolSet) (operations others : List Operation),
      let made := after operate symbols operations
      let remade := after operate anew others
      made.members = remade.members →
        made = remade ∧ made.toDelimited = remade.toDelimited ∧
        made.defineFlag? = remade.defineFlag? ∧ made.toJson.compact = remade.toJson.compact ∧
        made.toJson.pretty = remade.toJson.pretty := by
  refine ⟨fun symbols => ⟨symbols.pairwise_codePoints, fun x => ⟨?_, ?_⟩, ?_⟩,
    fun symbols operations => ⟨?_, members_after symbols operations⟩, listedIn?_pretty,
    fun left right other => ⟨union_comm left right, union_assoc left right other, union_self left⟩,
    fun symbols anew operations others => ?_⟩
  · rw [contains, List.contains_iff_mem, mem_members]
  · rw [operate, add_eq]
  · rw [members, size, List.toFinset_card_of_nodup symbols.nodup_toList]
  · exact (outcomes_meaning operate_meaning symbols operations).symm
  · intro made remade hmembers
    have hsame : made = remade := members_injective hmembers
    rw [hsame]
    exact ⟨rfl, rfl, rfl, rfl, rfl⟩

/-- Operations on symbols that are out of order, repeated, delimited or listed in a text. -/
def gathered : List Operation :=
  [.insert "B", .extend ["C", "A", "C"], .union (.ofList ["é", "B"]), .insert "A"]

/-- Other operations that lead to the members of `gathered`. -/
def regathered : List Operation :=
  [.insert "D", .parse " B ;; é;A;B", .read (Json.array (["é", "A", "B", "A"].map .string)).pretty,
    .union (.ofList ["C"])]

theorem meaning_gathered : gathered.map Operation.meaning =
    [.insert "B", .unite ["C", "A", "C"].toFinset, .unite ["é", "B"].toFinset, .insert "A"] := by
  simp only [gathered, List.map_cons, List.map_nil, Operation.meaning, members_ofList]

theorem meaning_regathered : regathered.map Operation.meaning =
    [.insert "D", .replace ["B", "é", "A", "B"].toFinset,
      .read (some ["é", "A", "B", "A"].toFinset), .unite ["C"].toFinset] := by
  have hdelimited : delimitedIn " B ;; é;A;B" = ["B", "é", "A", "B"] := by decide +kernel
  have hlisted := listedIn?_pretty ["é", "A", "B", "A"]
  simp only [List.map_cons, List.map_nil] at hlisted
  simp only [regathered, List.map_cons, List.map_nil, Operation.meaning, members_ofList, hlisted,
    hdelimited, Option.map_some]

theorem determined_by_members_gathered :
    (after operate empty gathered).members = (after operate (.ofList ["D"]) regathered).members ∧
      (after operate empty gathered).defineFlag? =
        (after operate (.ofList ["D"]) regathered).defineFlag? := by
  have hmembers : (after operate empty gathered).members =
      (after operate (.ofList ["D"]) regathered).members := by
    have hempty : empty.members = ∅ := rfl
    rw [members_after, members_after, hempty, members_ofList, meaning_gathered,
      meaning_regathered]
    simp only [after, List.foldl_cons, List.foldl_nil, FiniteSet.operate]
    ext x
    simp only [Finset.mem_insert, Finset.mem_union, List.mem_toFinset, List.mem_cons,
      List.not_mem_nil, Finset.notMem_empty]
    grind
  obtain ⟨-, -, -, -, hsame⟩ := determined_by_members
  exact ⟨hmembers, (hsame empty (.ofList ["D"]) gathered regathered hmembers).2.2.1⟩

end SymbolSet

end ScriptAssembly
