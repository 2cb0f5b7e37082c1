import ScriptAssembly.Path.Set
import ScriptAssembly.Symbols

/-!
# Sets and their listings

A set of paths and a set of symbols are determined by their listings, and adding the members of a
set to the empty set in their order makes the same set again.  A set of symbols is determined by its
members alone.

A set is made by operations, one after the other, each of which may give an answer.  A machine whose
every operation is mapped to one of another machine runs as that machine does.
-/

namespace ScriptAssembly

namespace Operations

variable {State Operation Answer Abstract Specified : Type}
  {operate : State → Operation → Answer × State}
  {specify : Abstract → Specified → Answer × Abstract}
  {abstract : State → Abstract} {meaning : Operation → Specified}

/-- The answers of operations, each with the state behind it. -/
def outcomes (operate : State → Operation → Answer × State) (s : State) :
    List Operation → List (Answer × State)
  | [] => []
  | operation :: operations =>
      operate s operation :: outcomes operate (operate s operation).2 operations

/-- The state behind operations. -/
def after (operate : State → Operation → Answer × State) (s : State)
    (operations : List Operation) : State :=
  operations.foldl (fun s operation => (operate s operation).2) s

theorem outcomes_meaning
    (hstep : ∀ s operation, specify (abstract s) (meaning operation) =
      (operate s operation).map id abstract) (s : State) (operations : List Operation) :
    outcomes specify (abstract s) (operations.map meaning) =
      (outcomes operate s operations).map (Prod.map id abstract) := by
  induction operations generalizing s with
  | nil => rfl
  | cons operation operations ih =>
      rw [List.map_cons, outcomes, outcomes, List.map_cons, hstep]
      exact congrArg _ (ih (operate s operation).2)

theorem after_meaning
    (hstep : ∀ s operation, (specify (abstract s) (meaning operation)).2 =
      abstract (operate s operation).2) (s : State) (operations : List Operation) :
    after specify (abstract s) (operations.map meaning) = abstract (after operate s operations) := by
  induction operations generalizing s with
  | nil => rfl
  | cons operation operations ih =>
      have hrest := ih (operate s operation).2
      rw [← hstep] at hrest
      exact hrest

end Operations

namespace PathSet

variable {paths : PathSet} {p q : Path} {P : Path → Prop}

theorem contains_iff : paths.contains p = true ↔ ∃ q ∈ paths.toList, q.Same p := by
  simp [contains]

theorem contains_congr (hsame : p.Same q) (paths : PathSet) :
    paths.contains p = paths.contains q := by
  unfold contains
  refine congrArg paths.toList.any (funext fun known => ?_)
  rw [decide_eq_decide]
  exact ⟨fun hp => hp.trans hsame, fun hq => hq.trans hsame.symm⟩

theorem contains_insert (paths : PathSet) (p q : Path) :
    (paths.insert p).contains q = (paths.contains q || decide (p.Same q)) := by
  by_cases hknown : paths.contains p = true
  · rw [contains, toList_insert, if_pos hknown]
    by_cases hsame : p.Same q
    · have hother : paths.contains q = true := contains_congr hsame paths ▸ hknown
      rw [hother, Bool.true_or]
      exact hother
    · rw [decide_eq_false hsame, Bool.or_false]
      rfl
  · rw [contains, toList_insert, if_neg hknown, List.any_append, List.any_cons, List.any_nil,
      Bool.or_false]
    rfl

theorem contains_insert_self (paths : PathSet) (p : Path) : (paths.insert p).contains p = true := by
  have hsame : p.Same p := rfl
  rw [contains_insert, decide_eq_true hsame, Bool.or_true]

theorem contains_insertMany_of_contains (hknown : paths.contains p = true) (added : List Path) :
    (paths.insertMany added).contains p = true := by
  induction added generalizing paths with
  | nil => exact hknown
  | cons q added ih =>
      apply ih
      rw [contains_insert, hknown, Bool.true_or]

theorem contains_insertMany_of_mem {added : List Path} (hp : p ∈ added) :
    (paths.insertMany added).contains p = true := by
  induction added generalizing paths with
  | nil => cases hp
  | cons q added ih =>
      rcases List.mem_cons.mp hp with rfl | hrest
      · exact contains_insertMany_of_contains (contains_insert_self paths p) added
      · exact ih hrest

theorem insert_of_contains (hknown : paths.contains p) : paths.insert p = paths := by
  rw [insert, dif_pos hknown]

theorem mem_erase : q ∈ (paths.erase p).toList ↔ q ∈ paths.toList ∧ ¬q.Same p := by
  simp [erase]

theorem contains_erase :
    (paths.erase p).contains q = true ↔ paths.contains q = true ∧ ¬p.Same q := by
  rw [contains_iff, contains_iff]
  constructor
  · rintro ⟨known, hknown, hsame⟩
    obtain ⟨hknown, happart⟩ := mem_erase.mp hknown
    exact ⟨⟨known, hknown, hsame⟩, fun hother => happart (hsame.trans hother.symm)⟩
  · rintro ⟨⟨known, hknown, hsame⟩, happart⟩
    exact ⟨known, mem_erase.mpr ⟨hknown, fun hother => happart (hother.symm.trans hsame)⟩, hsame⟩

/-- A path is taken out by every spelling of it. -/
theorem erase_congr (hsame : p.Same q) (paths : PathSet) : paths.erase p = paths.erase q := by
  have hkept : (fun known : Path => !decide (known.Same p)) = fun known => !decide (known.Same q) := by
    funext known
    rw [decide_eq_decide.mpr ⟨fun hp => hp.trans hsame, fun hq => hq.trans hsame.symm⟩]
  simp only [erase, hkept]

theorem insertMany_append (paths : PathSet) (added more : List Path) :
    paths.insertMany (added ++ more) = (paths.insertMany added).insertMany more :=
  List.foldl_append

theorem insertMany_singleton (paths : PathSet) (p : Path) :
    paths.insertMany [p] = paths.insert p := rfl

theorem forall_mem_insert (hpaths : ∀ p ∈ paths.toList, P p) {added : Path} (hadded : P added) :
    ∀ p ∈ (paths.insert added).toList, P p := by
  rw [toList_insert]
  split
  · exact hpaths
  · simpa [or_imp, forall_and] using ⟨hpaths, hadded⟩

theorem forall_mem_insertMany (hpaths : ∀ p ∈ paths.toList, P p) {added : List Path}
    (hadded : ∀ p ∈ added, P p) : ∀ p ∈ (paths.insertMany added).toList, P p := by
  induction added generalizing paths with
  | nil => exact hpaths
  | cons p added ih =>
      have hfirst := forall_mem_insert hpaths (hadded p List.mem_cons_self)
      exact ih hfirst fun q hq => hadded q (List.mem_cons_of_mem p hq)

theorem forall_mem_erase (hpaths : ∀ p ∈ paths.toList, P p) (erased : Path) :
    ∀ p ∈ (paths.erase erased).toList, P p :=
  fun p hp => hpaths p (List.mem_filter.mp hp).1

theorem ext_toList {left right : PathSet} (htoList : left.toList = right.toList) :
    left = right := by
  cases left
  cases right
  simpa using htoList

/-- Taking a path out undoes putting it in. -/
theorem erase_insert (paths : PathSet) (p : Path) : (paths.insert p).erase p = paths.erase p := by
  by_cases hknown : paths.contains p = true
  · rw [insert_of_contains hknown]
  · apply ext_toList
    have hsame : p.Same p := rfl
    have hsplit : (paths.insert p).toList = paths.toList ++ [p] := by
      rw [toList_insert, if_neg hknown]
    simp [erase, hsplit, hsame]

/-- Paths that are new and different from each other are all appended. -/
theorem toList_insertMany {added : List Path}
    (hdistinct : (paths.toList ++ added).Pairwise fun p q => ¬ p.Same q) :
    (paths.insertMany added).toList = paths.toList ++ added := by
  induction added generalizing paths with
  | nil => simp [insertMany]
  | cons p added ih =>
      have hnew : paths.contains p = false := by
        rw [contains, List.any_eq_false]
        intro q hq
        have hpair := (List.pairwise_append.mp hdistinct).2.2 q hq p List.mem_cons_self
        simpa using hpair
      have hinsert : (paths.insert p).toList = paths.toList ++ [p] := by
        simp [toList_insert, hnew]
      have hrest := @ih (paths.insert p) (by simpa [hinsert] using hdistinct)
      simpa [insertMany, hinsert] using hrest

theorem ofList_toList (paths : PathSet) : ofList paths.toList = paths := by
  apply ext_toList
  have hdistinct : (empty.toList ++ paths.toList).Pairwise fun p q => ¬ p.Same q := paths.distinct
  exact toList_insertMany hdistinct

end PathSet

namespace SymbolSet

theorem ext_toList {left right : SymbolSet} (htoList : left.toList = right.toList) :
    left = right := by
  cases left
  cases right
  simpa using htoList

theorem insertOrdered_last {x : String} {symbols : List String} (hlast : ∀ y ∈ symbols, y < x) :
    insertOrdered x symbols = symbols ++ [x] := by
  induction symbols with
  | nil => rfl
  | cons y symbols ih =>
      have hy := hlast y List.mem_cons_self
      have hrest := ih fun z hz => hlast z (List.mem_cons_of_mem y hz)
      have hne : x ≠ y := by
        rintro rfl
        exact String.lt_irrefl x hy
      rw [insertOrdered, if_neg (String.lt_asymm hy), if_neg hne, hrest]
      rfl

/-- Symbols that increase beyond the members of a set are all appended. -/
theorem toList_insertMany {symbols : SymbolSet} {added : List String}
    (hincreasing : (symbols.toList ++ added).Pairwise (· < ·)) :
    (symbols.insertMany added).toList = symbols.toList ++ added := by
  induction added generalizing symbols with
  | nil => simp [insertMany]
  | cons x added ih =>
      have hinsert : (symbols.insert x).toList = symbols.toList ++ [x] :=
        insertOrdered_last fun y hy =>
          (List.pairwise_append.mp hincreasing).2.2 y hy x List.mem_cons_self
      have hrest := @ih (symbols.insert x) (by simpa [hinsert] using hincreasing)
      simpa [insertMany, hinsert] using hrest

theorem ofList_toList (symbols : SymbolSet) : ofList symbols.toList = symbols := by
  apply ext_toList
  have hincreasing : (empty.toList ++ symbols.toList).Pairwise (· < ·) := symbols.increasing
  exact toList_insertMany hincreasing

theorem nodup_toList (symbols : SymbolSet) : symbols.toList.Nodup := by
  refine symbols.increasing.imp ?_
  rintro x y hlt rfl
  exact String.lt_irrefl x hlt

/-- Sets with the same members are the same set. -/
theorem ext_mem {left right : SymbolSet} (hmem : ∀ x, x ∈ left.toList ↔ x ∈ right.toList) :
    left = right := by
  apply ext_toList
  have hperm : left.toList.Perm right.toList :=
    (List.perm_ext_iff_of_nodup left.nodup_toList right.nodup_toList).mpr hmem
  refine List.Perm.eq_of_pairwise ?_ left.increasing right.increasing hperm
  intro x y _ _ hxy hyx
  exact absurd hyx (String.lt_asymm hxy)

@[simp]
theorem mem_insertMany {x : String} {symbols : SymbolSet} {names : List String} :
    x ∈ (symbols.insertMany names).toList ↔ x ∈ symbols.toList ∨ x ∈ names := by
  induction names generalizing symbols with
  | nil => simp [insertMany]
  | cons name names ih =>
      have hrest : x ∈ (symbols.insertMany (name :: names)).toList ↔
          x ∈ (symbols.insert name).toList ∨ x ∈ names := ih
      have hinsert : x ∈ (symbols.insert name).toList ↔ x = name ∨ x ∈ symbols.toList :=
        mem_insertOrdered
      rw [hrest, hinsert, List.mem_cons, or_assoc, or_left_comm]

@[simp]
theorem mem_union {x : String} {left right : SymbolSet} :
    x ∈ (left.union right).toList ↔ x ∈ left.toList ∨ x ∈ right.toList := mem_insertMany

end SymbolSet

end ScriptAssembly
