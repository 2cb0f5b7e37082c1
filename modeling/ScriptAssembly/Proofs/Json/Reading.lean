import ScriptAssembly.Json.Decode
import ScriptAssembly.Proofs.Json.Leaf

/-!
# Reading back values

A value that holds no numbers but natural ones is read back from its pretty form: the draft of the
text is the draft of the value, and nothing follows it.  The number of steps that a document is read
with is enough because every step passes a character at least.
-/

namespace ScriptAssembly.Json

mutual

/-- Every number in the value is a natural one. -/
def Plain : Json → Prop
  | .number (.natural _) => True
  | .number _ => False
  | .array items => PlainItems items
  | .object members => PlainMembers members
  | _ => True

/-- Every number in the items is a natural one. -/
def PlainItems : List Json → Prop
  | [] => True
  | item :: items => Plain item ∧ PlainItems items

/-- Every number in the members is a natural one. -/
def PlainMembers : List (String × Json) → Prop
  | [] => True
  | (_, value) :: members => Plain value ∧ PlainMembers members

end

theorem plainItems_iff (items : List Json) : PlainItems items ↔ ∀ item ∈ items, item.Plain := by
  induction items with
  | nil => simp [PlainItems]
  | cons item items ih => simp [PlainItems, ih]

theorem plainMembers_iff (members : List (String × Json)) :
    PlainMembers members ↔ ∀ member ∈ members, member.2.Plain := by
  induction members with
  | nil => simp [PlainMembers]
  | cons member members ih => simp [PlainMembers, ih]

/-- The items after the first one, each behind a comma on a line of its own. -/
def moreItems (level : Nat) : List Json → List Char
  | [] => []
  | item :: items => ',' :: (newLine level ++ prettyChars level item ++ moreItems level items)

/-- A member without the line break in front. -/
def memberChars (level : Nat) (name : String) (value : Json) : List Char :=
  quote name ++ ':' :: ' ' :: prettyChars level value

/-- The members after the first one, each behind a comma on a line of its own. -/
def moreMembers (level : Nat) : List (String × Json) → List Char
  | [] => []
  | (name, value) :: members =>
    ',' :: (newLine level ++ memberChars level name value ++ moreMembers level members)

theorem prettyItems_cons (level : Nat) (item : Json) (items : List Json) :
    prettyItems level (item :: items) =
      newLine level ++ prettyChars level item ++ moreItems level items := by
  induction items generalizing item with
  | nil => simp [prettyItems, moreItems]
  | cons second items ih => simp [prettyItems, moreItems, ih, List.append_assoc]

theorem prettyMembers_cons (level : Nat) (name : String) (value : Json)
    (members : List (String × Json)) :
    prettyMembers level ((name, value) :: members) =
      newLine level ++ memberChars level name value ++ moreMembers level members := by
  induction members generalizing name value with
  | nil => simp [prettyMembers, moreMembers, memberChars]
  | cons second members ih =>
      obtain ⟨second, next⟩ := second
      simp [prettyMembers, moreMembers, memberChars, ih, List.append_assoc]

namespace Draft

theorem dropGap_newLine (level : Nat) (s : List Char) :
    dropGap (newLine level ++ s) = dropGap s := by
  have hgap : ∀ c ∈ newLine level, isGap c = true := by
    intro c hc
    rcases List.mem_cons.mp hc with rfl | hc
    · rfl
    · rw [List.eq_of_mem_replicate hc]
      rfl
  exact List.dropWhile_append_of_pos hgap

theorem dropGap_cons {c : Char} (s : List Char) (hc : isGap c = false) :
    dropGap (c :: s) = c :: s := by
  simp [dropGap, hc]

theorem dropGap_newLine_cons (level : Nat) {c : Char} (s : List Char) (hc : isGap c = false) :
    dropGap (newLine level ++ c :: s) = c :: s := by
  rw [dropGap_newLine, dropGap_cons s hc]

theorem valueAt_space (fuel : Nat) (s : List Char) : valueAt fuel (' ' :: s) = valueAt fuel s := by
  cases fuel with
  | zero => rfl
  | succ fuel =>
      have hgap : dropGap (' ' :: s) = dropGap s := by simp [dropGap, isGap]
      simp only [valueAt, hgap]

/-- A printed value starts with a character that is neither a blank nor a closing bracket. -/
theorem prettyChars_eq_cons (level : Nat) {value : Json} (hplain : value.Plain) :
    ∃ c s, prettyChars level value = c :: s ∧ isGap c = false ∧ c ≠ ']' := by
  cases value with
  | null => exact ⟨'n', _, rfl, rfl, by decide⟩
  | bool value => cases value <;> exact ⟨_, _, rfl, rfl, by decide⟩
  | number n =>
      cases n with
      | natural n =>
          have htext : prettyChars level (.number (.natural n)) = Nat.toDigits 10 n.toNat := by
            simp [prettyChars, scalar?, Number.text, Nat.toString_eq_repr]
          cases hdigits : Nat.toDigits 10 n.toNat with
          | nil => exact absurd hdigits Nat.toDigits_ne_nil
          | cons c s =>
              have hc : c.isDigit = true := isDigit_of_mem_toDigits (hdigits ▸ List.mem_cons_self)
              refine ⟨c, s, by rw [htext, hdigits], ?_, ?_⟩
              · cases hgap : isGap c with
                | false => rfl
                | true =>
                    simp only [isGap, Bool.or_eq_true, decide_eq_true_eq] at hgap
                    rcases hgap with ((rfl | rfl) | rfl) | rfl <;> simp at hc
              · rintro rfl
                simp at hc
      | negative n => exact hplain.elim
      | float x => exact hplain.elim
  | string s => exact ⟨'"', _, rfl, rfl, by decide⟩
  | array items => cases items <;> exact ⟨'[', _, rfl, rfl, by decide⟩
  | object members => cases members <;> exact ⟨'\x7b', _, rfl, rfl, by decide⟩

theorem stops_comma (s : List Char) : Stops (',' :: s) := stops_cons s (by decide)

theorem stops_newLine (level : Nat) (s : List Char) : Stops (newLine level ++ s) :=
  stops_cons _ (by decide)

theorem stops_moreItems (level outer : Nat) (items : List Json) (s : List Char) :
    Stops (moreItems level items ++ (newLine outer ++ s)) := by
  cases items with
  | nil => exact stops_newLine outer s
  | cons item items => exact stops_comma _

theorem stops_moreMembers (level outer : Nat) (members : List (String × Json)) (s : List Char) :
    Stops (moreMembers level members ++ (newLine outer ++ s)) := by
  cases members with
  | nil => exact stops_newLine outer s
  | cons member members => exact stops_comma _

theorem valueAt_leaf (fuel : Nat) {c : Char} (s : List Char) (hgap : isGap c = false)
    (hbracket : c ≠ '[') (hbrace : c ≠ '\x7b') : valueAt (fuel + 1) (c :: s) = leafAt (c :: s) := by
  rw [valueAt, dropGap_cons s hgap]
  split <;> simp_all

theorem dropGap_member (level : Nat) (name : String) (value : Json) (rest : List Char) :
    dropGap (newLine level ++ (memberChars level name value ++ rest)) =
      '"' :: (name.toList.flatMap escapeChar ++
        '"' :: ':' :: ' ' :: (prettyChars level value ++ rest)) := by
  have hmember : memberChars level name value ++ rest = '"' :: (name.toList.flatMap escapeChar ++
      '"' :: ':' :: ' ' :: (prettyChars level value ++ rest)) := by
    simp [memberChars, quote, List.append_assoc]
  rw [hmember, dropGap_newLine_cons _ _ (by rfl)]

theorem membersAt_first {fuel level : Nat} (name : String) {value : Json} {rest : List Char}
    (hvalue : valueAt fuel (prettyChars level value ++ rest) = (ofJson value, some rest)) :
    membersAt (fuel + 1) [] (newLine level ++ (memberChars level name value ++ rest)) =
      membersAt fuel [(.ok name, ofJson value)] rest := by
  rw [membersAt, dropGap_member]
  simp [skipString_quoted, stringAt_quoted, dropGap_cons, isGap, valueAt_space, hvalue]

theorem membersAt_next {fuel level : Nat} (name : String) {value : Json}
    {before : List (Except Fault String × Draft)} {rest : List Char} (hbefore : before ≠ [])
    (hvalue : valueAt fuel (prettyChars level value ++ rest) = (ofJson value, some rest)) :
    membersAt (fuel + 1) before
        (',' :: (newLine level ++ (memberChars level name value ++ rest))) =
      membersAt fuel ((.ok name, ofJson value) :: before) rest := by
  have hempty : before.isEmpty = false := by simpa using hbefore
  rw [membersAt, dropGap_cons _ (by rfl)]
  simp [hempty, dropGap_member, skipString_quoted, stringAt_quoted, dropGap_cons, isGap,
    valueAt_space, hvalue]

theorem itemsAt_first {fuel level : Nat} {item : Json} {rest : List Char} (hplain : item.Plain)
    (hvalue : valueAt fuel (prettyChars level item ++ rest) = (ofJson item, some rest)) :
    itemsAt (fuel + 1) true (newLine level ++ (prettyChars level item ++ rest)) =
      ((ofJson item :: (itemsAt fuel false rest).1), (itemsAt fuel false rest).2) := by
  obtain ⟨c, s, htext, hgap, hbracket⟩ := prettyChars_eq_cons level hplain
  rw [htext, List.cons_append] at hvalue ⊢
  rw [itemsAt, dropGap_newLine_cons _ _ hgap]
  simp [hvalue]

theorem itemsAt_next {fuel level : Nat} {item : Json} {rest : List Char} (hplain : item.Plain)
    (hvalue : valueAt fuel (prettyChars level item ++ rest) = (ofJson item, some rest)) :
    itemsAt (fuel + 1) false (',' :: (newLine level ++ (prettyChars level item ++ rest))) =
      ((ofJson item :: (itemsAt fuel false rest).1), (itemsAt fuel false rest).2) := by
  obtain ⟨c, s, htext, hgap, hbracket⟩ := prettyChars_eq_cons level hplain
  rw [htext, List.cons_append] at hvalue ⊢
  rw [itemsAt, dropGap_cons _ (by rfl)]
  simp [dropGap_newLine_cons _ _ hgap, hbracket, hvalue]

theorem valueAt_natural (fuel : Nat) (n : UInt64) {rest : List Char} (hrest : Stops rest) :
    valueAt (fuel + 1) ((Number.natural n).text.toList ++ rest) =
      (.number (.ok (.natural n)), some rest) := by
  have hplain : Plain (.number (.natural n)) := trivial
  obtain ⟨c, s, htext, hgap, -⟩ := prettyChars_eq_cons 0 hplain
  have hleaf := leafAt_natural n hrest
  have hchars : (Number.natural n).text.toList = c :: s := htext
  rw [hchars, List.cons_append] at hleaf ⊢
  have hbracket : c ≠ '[' := by
    rintro rfl
    simp [leafAt, Char.isDigit] at hleaf
  have hbrace : c ≠ '\x7b' := by
    rintro rfl
    simp [leafAt, Char.isDigit] at hleaf
  rw [valueAt_leaf fuel _ hgap hbracket hbrace, hleaf]

mutual

/-- A printed value is read as itself, whatever follows it. -/
theorem valueAt_prettyChars (level fuel : Nat) (value : Json) (rest : List Char)
    (hplain : value.Plain) (hrest : Stops rest)
    (hfuel : 2 * (prettyChars level value).length ≤ fuel) :
    valueAt fuel (prettyChars level value ++ rest) = (ofJson value, some rest) := by
  have hpositive : 0 < fuel := by
    obtain ⟨c, s, htext, -⟩ := prettyChars_eq_cons level hplain
    simp only [htext, List.length_cons] at hfuel
    omega
  obtain ⟨fuel, rfl⟩ := Nat.exists_eq_succ_of_ne_zero (Nat.ne_of_gt hpositive)
  match value with
  | .null => exact valueAt_leaf fuel _ (by rfl) (by decide) (by decide)
  | .bool true => exact valueAt_leaf fuel _ (by rfl) (by decide) (by decide)
  | .bool false => exact valueAt_leaf fuel _ (by rfl) (by decide) (by decide)
  | .number (.natural n) =>
      exact valueAt_natural fuel n hrest
  | .string s =>
      exact (valueAt_leaf fuel _ (by rfl) (by decide) (by decide)).trans (leafAt_quote s rest)
  | .array [] =>
      obtain ⟨fuel, rfl⟩ : ∃ steps, fuel = steps + 1 := by
        simp [prettyChars, scalar?] at hfuel
        exact ⟨fuel - 1, by omega⟩
      simp [prettyChars, scalar?, valueAt, dropGap_cons, isGap, itemsAt, ofJson, ofItems]
  | .array (item :: items) =>
      simp only [prettyChars, prettyItems_cons, List.length_cons, List.length_append, newLine]
        at hfuel
      obtain ⟨fuel, rfl⟩ : ∃ steps, fuel = steps + 1 := ⟨fuel - 1, by omega⟩
      have hvalue := valueAt_prettyChars (level + 1) fuel item
        (moreItems (level + 1) items ++ (newLine level ++ ']' :: rest)) hplain.1
        (stops_moreItems (level + 1) level items _) (by omega)
      have hitems := itemsAt_moreItems (level + 1) level fuel items rest hplain.2 (by omega)
      have hfirst := itemsAt_first hplain.1 hvalue
      rw [hitems] at hfirst
      simp [prettyChars, prettyItems_cons, valueAt, dropGap_cons, isGap, hfirst, ofJson, ofItems]
  | .object [] =>
      obtain ⟨fuel, rfl⟩ : ∃ steps, fuel = steps + 1 := by
        simp [prettyChars, scalar?] at hfuel
        exact ⟨fuel - 1, by omega⟩
      simp [prettyChars, scalar?, valueAt, dropGap_cons, isGap, membersAt, ofJson, ofMembers]
  | .object ((name, value) :: members) =>
      simp only [prettyChars, prettyMembers_cons, memberChars, List.length_cons,
        List.length_append, newLine] at hfuel
      obtain ⟨fuel, rfl⟩ : ∃ steps, fuel = steps + 1 := ⟨fuel - 1, by omega⟩
      have hvalue := valueAt_prettyChars (level + 1) fuel value
        (moreMembers (level + 1) members ++ (newLine level ++ '\x7d' :: rest)) hplain.1
        (stops_moreMembers (level + 1) level members _) (by omega)
      have hmembers := membersAt_moreMembers (level + 1) level fuel [(.ok name, ofJson value)]
        members rest (by simp) hplain.2 (by omega)
      have hfirst := membersAt_first name hvalue
      rw [hmembers] at hfirst
      simp [prettyChars, prettyMembers_cons, valueAt, dropGap_cons, isGap, hfirst, ofJson,
        ofMembers]

theorem itemsAt_moreItems (level outer fuel : Nat) (items : List Json) (rest : List Char)
    (hplain : PlainItems items) (hfuel : 2 * (moreItems level items).length < fuel) :
    itemsAt fuel false (moreItems level items ++ (newLine outer ++ ']' :: rest)) =
      (ofItems items, .closed, some rest) := by
  obtain ⟨fuel, rfl⟩ := Nat.exists_eq_succ_of_ne_zero (Nat.ne_of_gt (Nat.zero_lt_of_lt hfuel))
  match items with
  | [] => rw [moreItems, List.nil_append, itemsAt, dropGap_newLine_cons _ _ (by rfl)]; rfl
  | item :: items =>
      simp only [moreItems, List.length_cons, List.length_append, newLine] at hfuel
      have hvalue := valueAt_prettyChars level fuel item
        (moreItems level items ++ (newLine outer ++ ']' :: rest)) hplain.1
        (stops_moreItems level outer items _) (by omega)
      have hitems := itemsAt_moreItems level outer fuel items rest hplain.2 (by omega)
      have hnext := itemsAt_next hplain.1 hvalue
      rw [hitems] at hnext
      simpa [moreItems, ofItems, List.append_assoc] using hnext

theorem membersAt_moreMembers (level outer fuel : Nat)
    (before : List (Except Fault String × Draft)) (members : List (String × Json))
    (rest : List Char) (hbefore : before ≠ []) (hplain : PlainMembers members)
    (hfuel : 2 * (moreMembers level members).length < fuel) :
    membersAt fuel before (moreMembers level members ++ (newLine outer ++ '\x7d' :: rest)) =
      (.object (before.reverse ++ ofMembers members) none none, some rest) := by
  obtain ⟨fuel, rfl⟩ := Nat.exists_eq_succ_of_ne_zero (Nat.ne_of_gt (Nat.zero_lt_of_lt hfuel))
  match members with
  | [] =>
      rw [moreMembers, List.nil_append, membersAt, dropGap_newLine_cons _ _ (by rfl)]
      simp [ofMembers]
  | (name, value) :: members =>
      simp only [moreMembers, memberChars, List.length_cons, List.length_append, newLine] at hfuel
      have hvalue := valueAt_prettyChars level fuel value
        (moreMembers level members ++ (newLine outer ++ '\x7d' :: rest)) hplain.1
        (stops_moreMembers level outer members _) (by omega)
      have hmembers := membersAt_moreMembers level outer fuel
        ((.ok name, ofJson value) :: before) members rest (by simp) hplain.2 (by omega)
      have hnext := membersAt_next name hbefore hvalue
      rw [hmembers] at hnext
      simpa [moreMembers, ofMembers, List.append_assoc] using hnext

end

end Draft

/-- The document of a printed value is that value and nothing else. -/
theorem ofText_pretty {value : Json} (hplain : value.Plain) :
    Document.ofText value.pretty = ⟨Draft.ofJson value, false⟩ := by
  have hread := Draft.valueAt_prettyChars 0 (2 * (prettyChars 0 value).length + 2) value [] hplain
    Draft.stops_nil (by omega)
  have hchars : value.pretty.toList = prettyChars 0 value := String.toList_ofList
  rw [List.append_nil] at hread
  unfold Document.ofText
  dsimp only
  rw [hchars, hread]
  rfl

theorem decodeText_pretty {α : Type} (decode : Decoder α) {value : Json} (hplain : value.Plain) :
    decodeText decode value.pretty = decode .text (Draft.ofJson value) := by
  rw [decodeText, ofText_pretty hplain]
  cases decode .text (Draft.ofJson value) <;> rfl

/-- What is made of a decoded value is made of the value of the text. -/
theorem decodeText_map {α β : Type} (decode : Decoder α) (make : α → β) (text : String) :
    decodeText (fun supply draft => (decode supply draft).map make) text =
      (decodeText decode text).map make := by
  unfold decodeText
  dsimp only
  cases decode .text (Document.ofText text).root with
  | error e => rfl
  | ok value => cases (Document.ofText text).trailing <;> rfl

end ScriptAssembly.Json
