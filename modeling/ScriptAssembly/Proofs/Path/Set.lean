import ScriptAssembly.Proofs.Persistence

/-!
# Sets of paths and lists without repetitions

What the members of a set of paths say, in their order, is a list of component lists in which none
is repeated.  Every operation on the set is the same operation on that list: it gives the same
answer and leaves a set whose members say what is left of the list.  So spellings matter to no
answer, no size and no order.  They matter to the texts alone: a member is spelt as it was when it
was first added since it was last taken out.
-/

namespace ScriptAssembly

namespace OrderedList

/-- An operation on an ordered list without repetitions. -/
inductive Operation (α : Type) where
  /-- An element is put at the end, unless it is listed; the answer is whether it is new. -/
  | insert (x : α)
  /-- An element is taken out; the answer is whether it was listed. -/
  | remove (x : α)
  /-- The answer is whether an element is listed. -/
  | contains (x : α)
  /-- Elements are put at the end, the listed ones and repetitions left out. -/
  | extend (added : List α)
  /-- The list gives way to another one, repetitions left out. -/
  | collect (listed : List α)
  /-- The list gives way to one that is read, if there is one; the answer is whether there is. -/
  | read (listed? : Option (List α))

variable {α : Type} [DecidableEq α] {xs added : List α} {x : α}

/-- The list has the element. -/
def lists (xs : List α) (x : α) : Bool := decide (x ∈ xs)

/-- The list with elements put at its end, the listed ones and repetitions left out. -/
def extended (xs added : List α) : List α := xs ++ (added.filter (· ∉ xs)).eraseDups

/-- The answer of an operation, if it gives one, and the list that it leaves. -/
def operate (xs : List α) : Operation α → Option Bool × List α
  | .insert x => if lists xs x then (some false, xs) else (some true, xs ++ [x])
  | .remove x => (some (lists xs x), xs.erase x)
  | .contains x => (some (lists xs x), xs)
  | .extend added => (none, extended xs added)
  | .collect listed => (none, listed.eraseDups)
  | .read (some listed) => (some true, listed.eraseDups)
  | .read none => (some false, xs)

theorem lists_iff : lists xs x = true ↔ x ∈ xs := decide_eq_true_iff

theorem extended_nil (xs : List α) : extended xs [] = xs := by
  simp [extended]

theorem nil_extended (listed : List α) : extended [] listed = listed.eraseDups := by
  simp [extended]

theorem extended_cons_of_mem (hknown : x ∈ xs) : extended xs (x :: added) = extended xs added := by
  rw [extended, List.filter_cons_of_neg (by simpa using hknown)]
  rfl

theorem extended_cons_of_new (hnew : x ∉ xs) :
    extended xs (x :: added) = extended (xs ++ [x]) added := by
  rw [extended, extended, List.filter_cons_of_pos (by simpa using hnew), List.eraseDups_cons,
    List.append_assoc, List.singleton_append, List.filter_filter]
  refine congrArg (fun rest => xs ++ x :: List.eraseDups rest) ?_
  apply List.filter_congr
  intro y _
  simp [and_comm, beq_eq_decide]

/-- Where nothing is repeated, all occurrences are taken out with the first. -/
theorem erase_eq_filter (hnodup : xs.Nodup) (x : α) :
    xs.erase x = xs.filter fun y => !decide (y = x) := by
  rw [hnodup.erase_eq_filter]
  apply List.filter_congr
  intro y _
  simp [bne, beq_eq_decide]

end OrderedList

namespace PathSet

open Operations

variable {paths : PathSet} {p q : Path}

/-- An operation on a set of paths. -/
inductive Operation where
  /-- A path is added; the answer is whether it is new. -/
  | insert (p : Path)
  /-- A path is taken out; the answer is whether it was a member. -/
  | remove (p : Path)
  /-- The answer is whether a path is a member. -/
  | contains (p : Path)
  /-- Paths are added one after the other. -/
  | extend (added : List Path)
  /-- The set gives way to that of the listed paths. -/
  | collect (listed : List Path)
  /-- The set gives way to the one that is read from a text; the answer is whether one is. -/
  | read (text : String)

/-- The answer of an operation, if it gives one, and the set that it leaves. -/
def operate (paths : PathSet) : Operation → Option Bool × PathSet
  | .insert p => (some (paths.add p).1, (paths.add p).2)
  | .remove p => (some (paths.remove p).1, (paths.remove p).2)
  | .contains p => (some (paths.contains p), paths)
  | .extend added => (none, paths.insertMany added)
  | .collect listed => (none, ofList listed)
  | .read text =>
    match Json.decodeText decode text with
    | .ok listed => (some true, listed)
    | .error _ => (some false, paths)

/-- The paths that a text lists, if it lists any. -/
def listedIn? (text : String) : Option (List Path) :=
  (Json.decodeText (Json.Decoder.list Path.decode) text).toOption

/-- What an operation does to the components. -/
def Operation.meaning : Operation → OrderedList.Operation (List Path.Component)
  | .insert p => .insert p.components
  | .remove p => .remove p.components
  | .contains p => .contains p.components
  | .extend added => .extend (added.map Path.components)
  | .collect listed => .collect (listed.map Path.components)
  | .read text => .read ((listedIn? text).map (·.map Path.components))

/-- What the members say, in their order. -/
def forms (paths : PathSet) : List (List Path.Component) := paths.toList.map Path.components

theorem contains_iff_mem_forms : paths.contains p = true ↔ p.components ∈ paths.forms := by
  rw [contains_iff, forms, List.mem_map]
  rfl

theorem lists_forms (paths : PathSet) (p : Path) :
    OrderedList.lists paths.forms p.components = paths.contains p := by
  rw [Bool.eq_iff_iff, OrderedList.lists_iff, contains_iff_mem_forms]

theorem nodup_forms (paths : PathSet) : paths.forms.Nodup :=
  List.pairwise_map.mpr paths.distinct

theorem forms_insert_of_contains (hknown : paths.contains p) :
    (paths.insert p).forms = paths.forms := by
  rw [insert_of_contains hknown]

theorem forms_insert_of_new (hnew : paths.contains p = false) :
    (paths.insert p).forms = paths.forms ++ [p.components] := by
  rw [forms, toList_insert, if_neg (by simp [hnew]), List.map_append]
  rfl

theorem forms_erase (paths : PathSet) (p : Path) :
    (paths.erase p).forms = paths.forms.filter fun form => !decide (form = p.components) := by
  rw [forms, forms, List.filter_map]
  rfl

theorem forms_insertMany (paths : PathSet) (added : List Path) :
    (paths.insertMany added).forms =
      OrderedList.extended paths.forms (added.map Path.components) := by
  induction added generalizing paths with
  | nil => exact (OrderedList.extended_nil _).symm
  | cons p added ih =>
      have hrest : (paths.insertMany (p :: added)).forms =
          OrderedList.extended (paths.insert p).forms (added.map Path.components) :=
        ih (paths.insert p)
      rw [hrest, List.map_cons]
      cases hknown : paths.contains p with
      | true =>
          rw [forms_insert_of_contains hknown,
            OrderedList.extended_cons_of_mem (contains_iff_mem_forms.mp hknown)]
      | false =>
          have hnew : p.components ∉ paths.forms := by
            rw [← contains_iff_mem_forms, hknown]
            exact Bool.false_ne_true
          rw [forms_insert_of_new hknown, OrderedList.extended_cons_of_new hnew]

theorem forms_ofList (listed : List Path) :
    (ofList listed).forms = OrderedList.extended [] (listed.map Path.components) :=
  forms_insertMany empty listed

example : (ofList [⟨"/a//b/."⟩, ⟨"c"⟩, ⟨"/a/b"⟩]).toList = [⟨"/a//b/."⟩, ⟨"c"⟩] := by decide

theorem listedIn?_pretty (listed : List Path) :
    listedIn? (Json.array (listed.map Path.toJson)).pretty = some listed := by
  have hplain : (Json.array (listed.map Path.toJson)).Plain := by simp
  rw [listedIn?, Json.decodeText_pretty _ hplain, Path.list_decode]
  rfl

theorem operate_read (paths : PathSet) (text : String) :
    paths.operate (.read text) =
      match listedIn? text with
      | some listed => (some true, ofList listed)
      | none => (some false, paths) := by
  have hread : Json.decodeText decode text = _ := Json.decodeText_map _ ofList text
  rw [operate, hread, listedIn?]
  cases Json.decodeText (Json.Decoder.list Path.decode) text <;> rfl

theorem add_of_contains (hknown : paths.contains p) : paths.add p = (false, paths) := by
  rw [add, if_pos hknown]

theorem add_of_new (hnew : paths.contains p = false) : paths.add p = (true, paths.insert p) := by
  rw [add, if_neg (by simp [hnew])]

theorem add_eq (paths : PathSet) (p : Path) :
    paths.add p = (!paths.contains p, paths.insert p) := by
  cases hknown : paths.contains p with
  | true => rw [add_of_contains hknown, insert_of_contains hknown, Bool.not_true]
  | false => rw [add_of_new hknown, Bool.not_false]

/-- A member is taken out alone, from its place in the list. -/
theorem toList_erase_of_contains (hknown : paths.contains p) :
    ∃ before kept behind, paths.toList = before ++ kept :: behind ∧ kept.Same p ∧
      (paths.erase p).toList = before ++ behind := by
  obtain ⟨kept, hkept, hsame⟩ := contains_iff.mp hknown
  obtain ⟨before, behind, hsplit⟩ := List.append_of_mem hkept
  refine ⟨before, kept, behind, hsplit, hsame, ?_⟩
  have hdistinct := paths.distinct
  rw [hsplit, List.pairwise_append, List.pairwise_cons] at hdistinct
  obtain ⟨-, ⟨hbehind, -⟩, hbefore⟩ := hdistinct
  have hstay : ∀ q : Path, ¬q.Same kept → (!decide (q.Same p)) = true := by
    intro q hother
    have hnot : ¬q.Same p := fun hq => hother (hq.trans hsame.symm)
    simp [hnot]
  have hfront : before.filter (fun q => !decide (q.Same p)) = before := by
    apply List.filter_eq_self.mpr
    intro q hq
    exact hstay q (hbefore q hq kept List.mem_cons_self)
  have hback : behind.filter (fun q => !decide (q.Same p)) = behind := by
    apply List.filter_eq_self.mpr
    intro q hq
    exact hstay q fun hsym => hbehind q hq hsym.symm
  have herase : (paths.erase p).toList = paths.toList.filter fun q => !decide (q.Same p) := rfl
  rw [herase, hsplit, List.filter_append, List.filter_cons_of_neg (by simpa using hsame), hfront,
    hback]

theorem erase_of_new (hnew : paths.contains p = false) : paths.erase p = paths := by
  apply ext_toList
  apply List.filter_eq_self.mpr
  intro q hq
  simpa using not_same_of_contains_eq_false hnew hq

theorem remove_eq (paths : PathSet) (p : Path) :
    paths.remove p = (paths.contains p, paths.erase p) := by
  rw [remove]
  cases hknown : paths.contains p with
  | true =>
      obtain ⟨before, kept, behind, hsplit, -, herase⟩ := toList_erase_of_contains hknown
      simp [hsplit, herase]
  | false => simp [erase_of_new hknown]

/-- An operation on a set is its meaning on what the members say. -/
theorem operate_meaning (paths : PathSet) (operation : Operation) :
    OrderedList.operate paths.forms operation.meaning =
      (paths.operate operation).map id forms := by
  cases operation with
  | insert p =>
      rw [operate, add_eq, Prod.map, Operation.meaning, OrderedList.operate, lists_forms]
      cases hknown : paths.contains p with
      | true =>
          rw [forms_insert_of_contains hknown]
          rfl
      | false =>
          rw [forms_insert_of_new hknown]
          rfl
  | remove p =>
      rw [operate, remove_eq, Prod.map, forms_erase, Operation.meaning, OrderedList.operate,
        OrderedList.erase_eq_filter paths.nodup_forms, lists_forms]
      rfl
  | contains p =>
      rw [operate, Prod.map, Operation.meaning, OrderedList.operate, lists_forms]
      rfl
  | extend added =>
      rw [operate, Prod.map, forms_insertMany]
      rfl
  | collect listed =>
      rw [operate, Prod.map, forms_ofList, OrderedList.nil_extended]
      rfl
  | read text =>
      rw [operate_read, Operation.meaning]
      cases listedIn? text with
      | none => rfl
      | some listed =>
          rw [Prod.map, forms_ofList, OrderedList.nil_extended]
          rfl

/-- Something that happens to the members of a set. -/
inductive Event where
  /-- A path is put in, unless it is a member. -/
  | added (p : Path)
  /-- A path is taken out. -/
  | removed (p : Path)
  /-- All members are taken out. -/
  | cleared

namespace Event

/-- The event puts a spelling of `p` in, unless there is one. -/
def Adds (p : Path) : Event → Prop
  | .added q => q.Same p
  | _ => False

/-- The event takes every spelling of `p` out. -/
def Ends (p : Path) : Event → Prop
  | .added _ => False
  | .removed q => q.Same p
  | .cleared => True

/-- The set behind an event. -/
def apply (paths : PathSet) : Event → PathSet
  | .added p => paths.insert p
  | .removed p => paths.erase p
  | .cleared => empty

theorem contains_apply (paths : PathSet) (event : Event) (p : Path) :
    (event.apply paths).contains p = true ↔
      event.Adds p ∨ (paths.contains p = true ∧ ¬event.Ends p) := by
  cases event with
  | added q => simp [apply, Adds, Ends, contains_insert, or_comm]
  | removed q =>
      have hspelt : ∀ known : Path, known.Same p → (known.Same q ↔ q.Same p) := fun known hknown =>
        ⟨fun hq => hq.symm.trans hknown, fun hq => hknown.trans hq.symm⟩
      simp only [apply, Adds, Ends, contains_iff, erase, List.mem_filter, Bool.not_eq_true',
        decide_eq_false_iff_not, false_or]
      constructor
      · rintro ⟨known, ⟨hmem, hother⟩, hknown⟩
        exact ⟨⟨known, hmem, hknown⟩, mt (hspelt known hknown).mpr hother⟩
      · rintro ⟨⟨known, hmem, hknown⟩, hother⟩
        exact ⟨known, ⟨hmem, mt (hspelt known hknown).mp hother⟩, hknown⟩
  | cleared => simp [apply, Adds, Ends, empty, contains]

theorem mem_apply (paths : PathSet) (event : Event) (p : Path) :
    p ∈ (event.apply paths).toList ↔
      (event = .added p ∧ ¬paths.contains p = true) ∨ (p ∈ paths.toList ∧ ¬event.Ends p) := by
  cases event with
  | added q =>
      rw [apply, toList_insert]
      split
      · rename_i hknown
        constructor
        · exact fun hmem => .inr ⟨hmem, nofun⟩
        · rintro (⟨heq, hnew⟩ | ⟨hmem, -⟩)
          · cases heq
            exact absurd hknown hnew
          · exact hmem
      · rename_i hnew
        rw [List.mem_append, List.mem_singleton]
        constructor
        · rintro (hmem | rfl)
          · exact .inr ⟨hmem, nofun⟩
          · exact .inl ⟨rfl, hnew⟩
        · rintro (⟨heq, -⟩ | ⟨hmem, -⟩)
          · cases heq
            exact .inr rfl
          · exact .inl hmem
  | removed q =>
      have hback : p.Same q ↔ q.Same p := ⟨Path.Same.symm, Path.Same.symm⟩
      simp [apply, Ends, erase, hback]
  | cleared => simp [apply, Ends, empty]

/-- An event of which `Happens` holds, told the events before it, and behind which nothing takes `p`
out. -/
def Lasting (Happens : List Event → Event → Prop) (p : Path) (events : List Event) : Prop :=
  ∃ before event later, events = before ++ event :: later ∧ Happens before event ∧
    ∀ other ∈ later, ¬other.Ends p

/-- Some spelling of `p` has been put in and not been taken out again. -/
def Present (p : Path) (events : List Event) : Prop :=
  Lasting (fun _ event => event.Adds p) p events

/-- The text of `p` was put in when no spelling of it was there, and not taken out again. -/
def Standing (p : Path) (events : List Event) : Prop :=
  Lasting (fun before event => event = .added p ∧ ¬Present p before) p events

theorem not_lasting_nil (Happens : List Event → Event → Prop) (p : Path) :
    ¬Lasting Happens p [] := by
  rintro ⟨before, event, later, hsplit, -⟩
  simp at hsplit

theorem lasting_concat (Happens : List Event → Event → Prop) (p : Path) (events : List Event)
    (last : Event) :
    Lasting Happens p (events ++ [last]) ↔
      Happens events last ∨ (Lasting Happens p events ∧ ¬last.Ends p) := by
  constructor
  · rintro ⟨before, event, later, hsplit, hhappens, hlasts⟩
    rcases List.eq_nil_or_concat later with rfl | ⟨front, other, rfl⟩
    · obtain ⟨rfl, hlast⟩ := List.append_inj' hsplit rfl
      cases hlast
      exact .inl hhappens
    · have hwhole : events ++ [last] = (before ++ event :: front) ++ [other] := by
        simpa using hsplit
      obtain ⟨rfl, hlast⟩ := List.append_inj' hwhole rfl
      cases hlast
      refine .inr ⟨⟨before, event, front, rfl, hhappens, fun other hother => ?_⟩, ?_⟩
      · exact hlasts other (by simp [hother])
      · exact hlasts last (by simp)
  · rintro (hhappens | ⟨⟨before, event, later, rfl, hhappens, hlasts⟩, hlast⟩)
    · exact ⟨events, last, [], rfl, hhappens, nofun⟩
    · refine ⟨before, event, later ++ [last], by simp, hhappens, fun other hother => ?_⟩
      rcases List.mem_append.mp hother with hlater | hnew
      · exact hlasts other hlater
      · exact List.mem_singleton.mp hnew ▸ hlast

theorem present_concat (p : Path) (events : List Event) (last : Event) :
    Present p (events ++ [last]) ↔ last.Adds p ∨ (Present p events ∧ ¬last.Ends p) :=
  lasting_concat _ p events last

theorem standing_concat (p : Path) (events : List Event) (last : Event) :
    Standing p (events ++ [last]) ↔
      (last = .added p ∧ ¬Present p events) ∨ (Standing p events ∧ ¬last.Ends p) :=
  lasting_concat _ p events last

theorem contains_foldl_apply (events : List Event) (p : Path) :
    (events.foldl apply empty).contains p = true ↔ Present p events := by
  induction events using List.reverseRecOn with
  | nil =>
      have hnone : ¬Present p [] := not_lasting_nil _ p
      simpa [empty, contains] using hnone
  | append_singleton events last ih =>
      rw [List.foldl_append, List.foldl_cons, List.foldl_nil, contains_apply, ih, present_concat]

/-- Members are spelt as they were first put in since they were last taken out. -/
theorem mem_foldl_apply (events : List Event) (p : Path) :
    p ∈ (events.foldl apply empty).toList ↔ Standing p events := by
  induction events using List.reverseRecOn with
  | nil =>
      have hnone : ¬Standing p [] := not_lasting_nil _ p
      simpa [empty] using hnone
  | append_singleton events last ih =>
      rw [List.foldl_append, List.foldl_cons, List.foldl_nil, mem_apply, ih, contains_foldl_apply,
        standing_concat]

end Event

/-- What happens in an operation. -/
def Operation.events : Operation → List Event
  | .insert p => [.added p]
  | .remove p => [.removed p]
  | .contains _ => []
  | .extend added => added.map .added
  | .collect listed => .cleared :: listed.map .added
  | .read text => ((listedIn? text).map fun listed => .cleared :: listed.map .added).getD []

theorem foldl_apply_added (paths : PathSet) (added : List Path) :
    (added.map Event.added).foldl Event.apply paths = paths.insertMany added := by
  rw [List.foldl_map]
  rfl

theorem operate_events (paths : PathSet) (operation : Operation) :
    (paths.operate operation).2 = operation.events.foldl Event.apply paths := by
  cases operation with
  | insert p =>
      rw [operate, add_eq]
      rfl
  | remove p =>
      rw [operate, remove_eq]
      rfl
  | contains p => rfl
  | extend added => exact (foldl_apply_added paths added).symm
  | collect listed => exact (foldl_apply_added empty listed).symm
  | read text =>
      rw [operate_read, Operation.events]
      cases listedIn? text with
      | none => rfl
      | some listed => exact (foldl_apply_added empty listed).symm

theorem after_events (paths : PathSet) (operations : List Operation) :
    after operate paths operations =
      (operations.flatMap Operation.events).foldl Event.apply paths := by
  induction operations generalizing paths with
  | nil => rfl
  | cons operation operations ih =>
      rw [List.flatMap_cons, List.foldl_append, ← operate_events]
      exact ih (paths.operate operation).2

/-- The same operation on the same paths in some other spelling. -/
inductive Operation.Respelled : Operation → Operation → Prop where
  | insert {p q : Path} (hsame : p.Same q) : Respelled (.insert p) (.insert q)
  | remove {p q : Path} (hsame : p.Same q) : Respelled (.remove p) (.remove q)
  | contains {p q : Path} (hsame : p.Same q) : Respelled (.contains p) (.contains q)
  | extend {added others : List Path} (hsame : List.Forall₂ Path.Same added others) :
      Respelled (.extend added) (.extend others)
  | collect {listed others : List Path} (hsame : List.Forall₂ Path.Same listed others) :
      Respelled (.collect listed) (.collect others)
  | read {text other : String} {listed others : List Path} (hlisted : listedIn? text = some listed)
      (hothers : listedIn? other = some others) (hsame : List.Forall₂ Path.Same listed others) :
      Respelled (.read text) (.read other)
  | unread {text other : String} (hnone : listedIn? text = none) (hother : listedIn? other = none) :
      Respelled (.read text) (.read other)

theorem map_components_of_same {listed others : List Path}
    (hsame : List.Forall₂ Path.Same listed others) :
    listed.map Path.components = others.map Path.components := by
  induction hsame with
  | nil => rfl
  | cons hfirst _ ih => rw [List.map_cons, List.map_cons, ih, hfirst]

theorem Operation.Respelled.meaning {operation other : Operation}
    (hrespelled : operation.Respelled other) : operation.meaning = other.meaning := by
  cases hrespelled with
  | insert hsame => exact congrArg OrderedList.Operation.insert hsame
  | remove hsame => exact congrArg OrderedList.Operation.remove hsame
  | contains hsame => exact congrArg OrderedList.Operation.contains hsame
  | extend hsame => exact congrArg OrderedList.Operation.extend (map_components_of_same hsame)
  | collect hsame => exact congrArg OrderedList.Operation.collect (map_components_of_same hsame)
  | read hlisted hothers hsame =>
      rw [Operation.meaning, Operation.meaning, hlisted, hothers, Option.map_some, Option.map_some,
        map_components_of_same hsame]
  | unread hnone hother => rw [Operation.meaning, Operation.meaning, hnone, hother]

/-- Runs of respelled operations give the same answers and leave sets that say the same. -/
theorem outcomes_of_respelled {operations others : List Operation}
    (hrespelled : List.Forall₂ Operation.Respelled operations others) (paths : PathSet) :
    (outcomes operate paths operations).map (Prod.map id forms) =
      (outcomes operate paths others).map (Prod.map id forms) := by
  have hmeaning : operations.map Operation.meaning = others.map Operation.meaning := by
    induction hrespelled with
    | nil => rfl
    | cons hfirst _ ih => rw [List.map_cons, List.map_cons, ih, hfirst.meaning]
  rw [← outcomes_meaning operate_meaning, hmeaning, outcomes_meaning operate_meaning]

/-- A set of paths refines an ordered list of component lists without repetitions, operation by
operation.  A path is put at the end, in its own spelling, if no member is a spelling of it; it is
taken out with its one spelling, and the others stay as and where they are.  The members behind any
operations are spelt as they were first added since they were last taken out.  Operations on other
spellings give the same answers, and sets of the same size that say the same in the same order. -/
theorem refines_orderedList :
    (∀ paths : PathSet, (paths.toList.Pairwise fun p q => ¬p.Same q) ∧ paths.forms.Nodup ∧
      paths.size = paths.forms.length) ∧
    (∀ (paths : PathSet) (operations : List Operation),
      outcomes OrderedList.operate paths.forms (operations.map Operation.meaning) =
        (outcomes operate paths operations).map (Prod.map id forms)) ∧
    (∀ (paths : PathSet) (p : Path),
      (paths.contains p = true ↔ ∃ q ∈ paths.toList, q.Same p) ∧
      (paths.contains p = false →
        paths.operate (.remove p) = (some false, paths) ∧
        ∃ longer, paths.operate (.insert p) = (some true, longer) ∧
          longer.toList = paths.toList ++ [p]) ∧
      (paths.contains p = true →
        paths.operate (.insert p) = (some false, paths) ∧
        ∃ before kept behind shorter, paths.toList = before ++ kept :: behind ∧ kept.Same p ∧
          paths.operate (.remove p) = (some true, shorter) ∧
          shorter.toList = before ++ behind)) ∧
    (∀ (operations : List Operation) (p : Path),
      p ∈ (after operate empty operations).toList ↔
        Event.Standing p (operations.flatMap Operation.events)) ∧
    (∀ listed : List Path, listedIn? (Json.array (listed.map Path.toJson)).pretty = some listed) ∧
    ∀ (paths : PathSet) (operations others : List Operation),
      List.Forall₂ Operation.Respelled operations others →
        (outcomes operate paths operations).map (Prod.map id forms) =
          (outcomes operate paths others).map (Prod.map id forms) := by
  refine ⟨fun paths => ⟨paths.distinct, paths.nodup_forms, ?_⟩, outcomes_meaning operate_meaning,
    fun paths p => ⟨contains_iff, fun hnew => ⟨?_, ?_⟩, fun hknown => ⟨?_, ?_⟩⟩,
    fun operations p => ?_, listedIn?_pretty,
    fun paths _ _ hrespelled => outcomes_of_respelled hrespelled paths⟩
  · rw [forms, size, List.length_map]
  · rw [operate, remove_eq, hnew, erase_of_new hnew]
  · refine ⟨paths.insert p, ?_, ?_⟩
    · rw [operate, add_of_new hnew]
    · rw [toList_insert, if_neg (by simp [hnew])]
  · rw [operate, add_of_contains hknown]
  · obtain ⟨before, kept, behind, hsplit, hsame, herase⟩ := toList_erase_of_contains hknown
    refine ⟨before, kept, behind, paths.erase p, hsplit, hsame, ?_, herase⟩
    rw [operate, remove_eq, hknown]
  · rw [after_events, Event.mem_foldl_apply]

/-- Operations with a bulk load and a read list. -/
def spelt : List Operation :=
  [.insert ⟨"/a/b"⟩, .extend [⟨"c"⟩, ⟨"/a//b"⟩, ⟨"c/"⟩], .remove ⟨"/a/b/."⟩, .insert ⟨"/a//b/."⟩,
    .contains ⟨"./c"⟩,
    .read (Json.array ([⟨"/a/b/"⟩, ⟨"d"⟩, ⟨"/a/b"⟩].map Path.toJson)).pretty, .insert ⟨"d//"⟩]

/-- The operations of `spelt` on other spellings. -/
def respelt : List Operation :=
  [.insert ⟨"//a/b"⟩, .extend [⟨"c/."⟩, ⟨"/a/b"⟩, ⟨"c"⟩], .remove ⟨"/a/./b"⟩, .insert ⟨"/a/b"⟩,
    .contains ⟨".//c"⟩,
    .read (Json.array ([⟨"/a/b"⟩, ⟨"d/."⟩, ⟨"/a//b"⟩].map Path.toJson)).pretty, .insert ⟨"d"⟩]

theorem refines_orderedList_respelt :
    List.Forall₂ Operation.Respelled spelt respelt ∧
      (outcomes operate empty spelt).map Prod.fst = (outcomes operate empty respelt).map Prod.fst := by
  have hrespelled : List.Forall₂ Operation.Respelled spelt respelt :=
    .cons (.insert (by decide)) (.cons (.extend (by decide)) (.cons (.remove (by decide))
      (.cons (.insert (by decide)) (.cons (.contains (by decide))
        (.cons (.read (listedIn?_pretty _) (listedIn?_pretty _) (by decide))
          (.cons (.insert (by decide)) .nil))))))
  obtain ⟨-, -, -, -, -, hcongruent⟩ := refines_orderedList
  have hsame := congrArg (List.map Prod.fst) (hcongruent empty spelt respelt hrespelled)
  rw [List.map_map, List.map_map] at hsame
  exact ⟨hrespelled, hsame⟩

end PathSet

end ScriptAssembly
