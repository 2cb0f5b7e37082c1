import ScriptAssembly.Path

/-!
# Ordered sets of paths

A `PathSet` lists paths in the order they were first added.  No two of its members are spellings
of one path, and a member keeps the spelling of its first addition.
-/

namespace ScriptAssembly

/-- Paths in insertion order, no two of them the same. -/
structure PathSet where
  /-- The members, first added first. -/
  toList : List Path
  /-- No path is listed twice, in whatever spelling. -/
  distinct : toList.Pairwise fun p q => ¬ p.Same q
deriving DecidableEq

namespace PathSet

/-- The set with no member. -/
def empty : PathSet := ⟨[], .nil⟩

instance : Inhabited PathSet := ⟨empty⟩

/-- Some member is a spelling of `p`. -/
def contains (paths : PathSet) (p : Path) : Bool := paths.toList.any fun q => q.Same p

theorem not_same_of_contains_eq_false {paths : PathSet} {p q : Path}
    (habsent : paths.contains p = false) (hq : q ∈ paths.toList) : ¬ q.Same p := by
  simpa using List.any_eq_false.mp habsent q hq

/-- `p` is appended unless it is a member already. -/
def insert (paths : PathSet) (p : Path) : PathSet :=
  if habsent : paths.contains p then paths
  else {
    toList := paths.toList ++ [p]
    distinct := by
      refine List.pairwise_append.mpr ⟨paths.distinct, List.pairwise_singleton _ _, ?_⟩
      intro q hq r hr
      obtain rfl := List.mem_singleton.mp hr
      exact not_same_of_contains_eq_false (by simpa using habsent) hq
  }

/-- Every spelling of `p` is taken out. -/
def erase (paths : PathSet) (p : Path) : PathSet where
  toList := paths.toList.filter fun q => !decide (q.Same p)
  distinct := paths.distinct.filter _

/-- Whether `p` is no member yet, and the set with `p` added. -/
def add (paths : PathSet) (p : Path) : Bool × PathSet :=
  if paths.contains p then (false, paths) else (true, paths.insert p)

/-- Whether fewer members are left without `p`, and the set without it. -/
def remove (paths : PathSet) (p : Path) : Bool × PathSet :=
  let left := paths.erase p
  (decide (paths.toList.length ≠ left.toList.length), left)

/-- The paths are added one after the other. -/
def insertMany (paths : PathSet) (added : List Path) : PathSet := added.foldl insert paths

/-- The set of the listed paths, first spellings first. -/
def ofList (paths : List Path) : PathSet := empty.insertMany paths

/-- The number of members. -/
def size (paths : PathSet) : Nat := paths.toList.length

theorem toList_insert (paths : PathSet) (p : Path) :
    (paths.insert p).toList =
      if paths.contains p then paths.toList else paths.toList ++ [p] := by
  unfold insert
  split <;> simp_all

end PathSet

end ScriptAssembly
