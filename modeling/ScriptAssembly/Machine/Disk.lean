import ScriptAssembly.Path

/-!
# Disks

A disk is a tree of directories, files and symbolic links below one root.  It is kept as a list of
entries by place, where a place is the list of names that leads to an entry from the root; an entry
counts only if every place above it is a directory, so every disk is a tree.
-/

namespace ScriptAssembly

/-- The names that lead from the root to an entry. -/
abbrev Place := List String

/-- The absolute path of a place. -/
def Place.path (place : Place) : Path :=
  ⟨.ofList ('/' :: Text.join '/' (place.map String.toList))⟩

/-- What stands at a place. -/
inductive Entry where
  /-- A directory. -/
  | directory
  /-- A file. -/
  | file (content : ByteArray) (executable : Bool)
  /-- A symbolic link. -/
  | link (target : Path)

namespace Entry

/-- The entry is a directory. -/
def isDirectory : Entry → Bool
  | .directory => true
  | _ => false

/-- The entry is a file. -/
def isFile : Entry → Bool
  | .file .. => true
  | _ => false

end Entry

/-- The entries of a disk below its root. -/
structure Disk where
  /-- The entries by place. -/
  entries : List (Place × Entry)

namespace Disk

/-- What is noted for a place, whether or not the place can be reached. -/
def noted? (d : Disk) (place : Place) : Option Entry :=
  match place with
  | [] => some .directory
  | place => d.entries.lookup place

/-- Every place above this one is a directory. -/
def isReachable (d : Disk) (place : Place) : Bool :=
  (List.range place.length).all fun n => (d.noted? (place.take n)).any Entry.isDirectory

/-- What stands at a place. -/
def at? (d : Disk) (place : Place) : Option Entry :=
  if d.isReachable place then d.noted? place else none

/-- A directory stands at the place. -/
def isDirectoryAt (d : Disk) (place : Place) : Bool := (d.at? place).any Entry.isDirectory

/-- The disk with an entry at a place, in place of whatever stood there. -/
def put (d : Disk) (place : Place) (entry : Entry) : Disk :=
  ⟨d.entries.filter (fun known => known.1 ≠ place) ++ [(place, entry)]⟩

/-- The disk without a place and all below it. -/
def erase (d : Disk) (place : Place) : Disk :=
  ⟨d.entries.filter fun known => !place.isPrefixOf known.1⟩

/-- The disk with an entry at a place and nothing below it. -/
def replace (d : Disk) (place : Place) (entry : Entry) : Disk := (d.erase place).put place entry

/-- The names in a directory, in increasing order. -/
def names (d : Disk) (directory : Place) : List String :=
  let listed := d.entries.filterMap fun known =>
    if known.1 ≠ [] ∧ known.1.dropLast = directory then known.1.getLast? else none
  listed.eraseDups.mergeSort (· ≤ ·)

/-- The number of names in the longest place. -/
def depth (d : Disk) : Nat := (d.entries.map fun known => known.1.length).foldl max 0

/-- The places noted as directories. -/
def directories (d : Disk) : List Place :=
  [] :: (d.entries.filter fun known => known.2.isDirectory).map Prod.fst

end Disk

end ScriptAssembly
