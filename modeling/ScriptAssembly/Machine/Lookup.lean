import ScriptAssembly.Machine.Disk
import ScriptAssembly.Machine.Error

/-!
# Looking up paths

A path is followed name by name from the root or from a directory.  Symbolic links on the way are
replaced by what they point at, and `..` leads to the directory above the one that was really
reached, not above the one that was named.

To tell where a path leads the whole way is gone with absolute paths: whatever is passed is asked
for by the path of its place.  So a path may lead somewhere and be too long for that all the same.
-/

namespace ScriptAssembly

/-- What a path leads to. -/
inductive Spot where
  /-- An entry. -/
  | found (place : Place) (entry : Entry)
  /-- A place in an existing directory where nothing stands; `slashed` holds if the path goes on
  with a slash there. -/
  | vacant (place : Place) (slashed : Bool)

/-- How many symbolic links a lookup follows at most. -/
def linkLimit : Nat := 40

/-- How many bytes a name may have. -/
def nameLimit : Nat := 255

/-- How many bytes a path may have. -/
def pathLimit : Nat := 4095

namespace Disk

/-- The spot that the pieces of a path lead to from the directory `here`.  The last piece is looked
through if it is a link only where `through` holds, and `links` more links may be followed. -/
def follow (d : Disk) (through : Bool) (links : Nat) (here : Place) :
    List (List Char) → Except IoError Spot
  | [] => .ok (.found here .directory)
  | piece :: rest =>
    if piece = [] ∨ piece = ['.'] then follow d through links here rest
    else if piece = ['.', '.'] then follow d through links here.dropLast rest
    else if nameLimit < (String.ofList piece).utf8ByteSize then .error .nameTooLong
    else
      let place := here ++ [.ofList piece]
      match d.at? place with
      | none =>
        if rest.all List.isEmpty then .ok (.vacant place (!rest.isEmpty)) else .error .notFound
      | some .directory => follow d through links place rest
      | some (.file content executable) =>
        if rest.isEmpty then .ok (.found place (.file content executable))
        else .error .notDirectory
      | some (.link target) =>
        if rest.isEmpty && !through then .ok (.found place (.link target))
        else
          match links with
          | 0 => .error .linkLoop
          | links + 1 =>
            follow d through links (if target.isAbsolute then [] else here)
              (Text.split '/' target.text.toList ++ rest)
termination_by pieces => (links, pieces.length)

/-- The spot that a path of any length leads to, read from the directory `here`. -/
def locate (d : Disk) (here : Place) (through : Bool) (p : Path) : Except IoError Spot :=
  if '\x00' ∈ p.text.toList then .error .nullInPath
  else if p.text.isEmpty then .error .notFound
  else if p.isAbsolute then d.follow through linkLimit [] (Text.split '/' p.text.toList)
  else if d.isDirectoryAt here then d.follow through linkLimit here (Text.split '/' p.text.toList)
  else .error .notFound

/-- The directory that a path is read from. -/
def origin (here : Place) (p : Path) : Place := if p.isAbsolute then [] else here

/-- What stands in front of these pieces is asked for as a directory, with a slash behind its path:
nothing is named behind it, or the next step leads upwards. -/
def asksDirectory : List (List Char) → Bool
  | [] => false
  | piece :: rest =>
    if piece = [] ∨ piece = ['.'] then rest.isEmpty || asksDirectory rest
    else piece = ['.', '.']

/-- On the way of the pieces from the directory `here` each entry can be asked for by the path of
its place, as far as the way goes. -/
def staysShort (d : Disk) (links : Nat) (here : Place) : List (List Char) → Bool
  | [] => true
  | piece :: rest =>
    if piece = [] ∨ piece = ['.'] then staysShort d links here rest
    else if piece = ['.', '.'] then staysShort d links here.dropLast rest
    else
      let place := here ++ [.ofList piece]
      let size := place.path.text.utf8ByteSize
      if pathLimit < size then false
      else
        match d.at? place with
        | some .directory =>
          if asksDirectory rest ∧ size = pathLimit then false else staysShort d links place rest
        | some (.link target) =>
          match links with
          | 0 => true
          | links + 1 =>
            staysShort d links (if target.isAbsolute then [] else here)
              (Text.split '/' target.text.toList ++ rest)
        | _ => true
termination_by pieces => (links, pieces.length)

/-- The spot that a path leads to, read from the directory `here`. -/
def lookup (d : Disk) (here : Place) (through : Bool) (p : Path) : Except IoError Spot :=
  if pathLimit < p.text.utf8ByteSize ∧ '\x00' ∉ p.text.toList then .error .nameTooLong
  else d.locate here through p

end Disk

end ScriptAssembly
