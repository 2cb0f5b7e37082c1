import ScriptAssembly.Text.Trim
import ScriptAssembly.Text.Split

/-!
# Define symbols

A `SymbolSet` holds the names that conditional compilation is switched on with.  Its members are
strictly increasing by code point, so a set has one listing, one delimited text and one compiler
flag, whatever the order in which its members were found.
-/

namespace ScriptAssembly

/-- A set of define symbols, listed in increasing order. -/
structure SymbolSet where
  /-- The members in increasing order. -/
  toList : List String
  /-- The listing is strictly increasing. -/
  increasing : toList.Pairwise (· < ·)
deriving DecidableEq

namespace SymbolSet

/-- The set with no member. -/
def empty : SymbolSet := ⟨[], .nil⟩

instance : Inhabited SymbolSet := ⟨empty⟩

/-- `x` put at its place in an increasing listing, unless it is listed. -/
def insertOrdered (x : String) : List String → List String
  | [] => [x]
  | y :: ys =>
    if x < y then x :: y :: ys
    else if x = y then y :: ys
    else y :: insertOrdered x ys

theorem mem_insertOrdered {x z : String} {ys : List String} :
    z ∈ insertOrdered x ys ↔ z = x ∨ z ∈ ys := by
  induction ys with
  | nil => simp [insertOrdered]
  | cons y ys ih =>
    simp only [insertOrdered]
    split
    · simp
    · split
      · rename_i heq
        subst heq
        simp
      · simp only [List.mem_cons, ih]
        grind

theorem pairwise_insertOrdered {x : String} {ys : List String} (hys : ys.Pairwise (· < ·)) :
    (insertOrdered x ys).Pairwise (· < ·) := by
  induction ys with
  | nil => simp [insertOrdered]
  | cons y ys ih =>
    obtain ⟨hy, hrest⟩ := List.pairwise_cons.mp hys
    simp only [insertOrdered]
    split
    · rename_i hlt
      refine List.pairwise_cons.mpr ⟨fun z hz => ?_, hys⟩
      rcases List.mem_cons.mp hz with rfl | hz
      · exact hlt
      · exact String.lt_trans hlt (hy z hz)
    · split
      · exact hys
      · rename_i hge hne
        refine List.pairwise_cons.mpr ⟨fun z hz => ?_, ih hrest⟩
        rcases mem_insertOrdered.mp hz with rfl | hz
        · exact Decidable.byContradiction fun hnot =>
            hne (String.le_antisymm (String.not_lt.mp hnot) (String.not_lt.mp hge))
        · exact hy z hz

/-- The set with `x` added. -/
def insert (symbols : SymbolSet) (x : String) : SymbolSet where
  toList := insertOrdered x symbols.toList
  increasing := pairwise_insertOrdered symbols.increasing

/-- `x` is not listed; the search ends where `x` would stand. -/
def isNewIn (x : String) : List String → Bool
  | [] => true
  | y :: ys => if x < y then true else if x = y then false else isNewIn x ys

/-- Whether `x` is no member yet, and the set with `x` added. -/
def add (symbols : SymbolSet) (x : String) : Bool × SymbolSet :=
  (isNewIn x symbols.toList, symbols.insert x)

/-- `x` is a member. -/
def contains (symbols : SymbolSet) (x : String) : Bool := symbols.toList.contains x

/-- All of the listed names are added. -/
def insertMany (symbols : SymbolSet) (names : List String) : SymbolSet :=
  names.foldl insert symbols

/-- The set of the listed names. -/
def ofList (names : List String) : SymbolSet := empty.insertMany names

/-- The members of either set. -/
def union (left right : SymbolSet) : SymbolSet := left.insertMany right.toList

/-- The number of members. -/
def size (symbols : SymbolSet) : Nat := symbols.toList.length

/-- The set has no member. -/
def isEmpty (symbols : SymbolSet) : Bool := symbols.toList.isEmpty

/-- Separates the symbols of a delimited text. -/
def delimiter : Char := ';'

/-- The set written as a delimited text: blanks around a name and empty names are dropped. -/
def parse (value : String) : SymbolSet :=
  ofList <| ((Text.split delimiter value.toList).map Text.trim).filter (· ≠ [])
    |>.map String.ofList

/-- The members in order, joined by the delimiter. -/
def toDelimited (symbols : SymbolSet) : String :=
  .ofList (Text.join delimiter (symbols.toList.map String.toList))

/-- The compiler option that switches the symbols on; an empty set needs none. -/
def defineFlag? (symbols : SymbolSet) : Option String :=
  if symbols.isEmpty then none else some ("/define:" ++ symbols.toDelimited)

end SymbolSet

end ScriptAssembly
