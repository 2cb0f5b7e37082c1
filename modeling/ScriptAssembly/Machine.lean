import ScriptAssembly.Machine.Lookup
import ScriptAssembly.Text.Utf8

/-!
# Machines

A machine is a disk, a working directory and the environment variables: all that a command can see
and change.  Reading is a function of the machine; writing makes a new machine.
-/

namespace ScriptAssembly

/-- All that a command can see and change. -/
structure Machine where
  /-- The disk. -/
  disk : Disk
  /-- The working directory. -/
  directory : Place
  /-- The environment variables. -/
  environment : List (String × String)

namespace Machine

/-- The spot that a path leads to, through all links. -/
def find (m : Machine) (p : Path) : Except IoError Spot := m.disk.lookup m.directory true p

/-- The entry that a path leads to, through all links. -/
def entry? (m : Machine) (p : Path) : Option (Place × Entry) :=
  match m.find p with
  | .ok (.found place entry) => some (place, entry)
  | _ => none

/-- The path leads to a file. -/
def isFile (m : Machine) (p : Path) : Bool := (m.entry? p).any fun found => found.2.isFile

/-- The path leads to a directory. -/
def isDirectory (m : Machine) (p : Path) : Bool :=
  (m.entry? p).any fun found => found.2.isDirectory

/-- The path leads to an entry. -/
def hasEntry (m : Machine) (p : Path) : Bool := (m.entry? p).isSome

/-- The value of an environment variable. -/
def environmentValue? (m : Machine) (name : String) : Option String := m.environment.lookup name

/-- The way of the path can be gone by the paths of what it passes. -/
def staysShort (m : Machine) (p : Path) : Bool :=
  m.disk.staysShort linkLimit (Disk.origin m.directory p) (Text.split '/' p.text.toList)

/-- The absolute path of what a path leads to, without links.  It is found name by name, so the path
may be of any length, but no place on the way may have a path that is too long. -/
def canonical (m : Machine) (p : Path) : Except IoError Path := do
  if !m.staysShort p then throw .nameTooLong
  match ← m.disk.locate m.directory true p with
  | .found place _ => return place.path
  | .vacant .. => throw .notFound

/-- The absolute path of the working directory. -/
def workingDirectory (m : Machine) : Except IoError Path :=
  if m.disk.isDirectoryAt m.directory then .ok m.directory.path else .error .notFound

/-- The form in which a path is kept: canonical if it leads to something, else absolute. -/
def identity (m : Machine) (p : Path) : Path :=
  match m.canonical p with
  | .ok known => known
  | .error _ =>
    if p.isAbsolute then p
    else
      match m.workingDirectory with
      | .ok directory => directory.join p
      | .error _ => p

/-- The content of a file. -/
def readBytes (m : Machine) (p : Path) : Except IoError ByteArray := do
  match ← m.find p with
  | .found _ (.file content _) => return content
  | .found _ _ => throw .isDirectory
  | .vacant .. => throw .notFound

/-- The text of a file that has to be UTF-8. -/
def readText (m : Machine) (p : Path) : Except IoError String := do
  match String.fromUTF8? (← m.readBytes p) with
  | some text => return text
  | none => throw .notText

/-- The machine with an entry at a place and nothing below it. -/
def put (m : Machine) (place : Place) (entry : Entry) : Machine :=
  { m with disk := m.disk.replace place entry }

/-- The machine after a file has been written; an existing file may go on being run. -/
def writeFile (m : Machine) (p : Path) (content : ByteArray) : Except IoError Machine := do
  match ← m.find p with
  | .found place (.file _ executable) => return m.put place (.file content executable)
  | .found _ _ => throw .isDirectory
  | .vacant _ true => throw .isDirectory
  | .vacant place false => return m.put place (.file content false)

/-- The machine after one directory has been made; slashes behind its name do not lead into what may
stand there already. -/
def makeDirectory (m : Machine) (p : Path) : Except IoError Machine := do
  match ← m.disk.lookup m.directory false p.withoutEndSlashes with
  | .found .. => throw .alreadyExists
  | .vacant place _ => return m.put place .directory

/-- The machine after a directory and the missing ones above it have been made, with the failure
that stopped this; at most `steps` directories are tried. -/
def makeDirectoriesFrom : Nat → Machine → Path → Machine × Except IoError Unit
  | 0, m, _ => (m, .error .noAncestor)
  | steps + 1, m, p =>
    if p.text.isEmpty then (m, .ok ())
    else
      match m.makeDirectory p with
      | .ok made => (made, .ok ())
      | .error .notFound =>
        match p.parent? with
        | none => (m, .error .noAncestor)
        | some parent =>
          match makeDirectoriesFrom steps m parent with
          | (m, .error e) => (m, .error e)
          | (m, .ok ()) =>
            match m.makeDirectory p with
            | .ok made => (made, .ok ())
            | .error e => if m.isDirectory p then (m, .ok ()) else (m, .error e)
      | .error e => if m.isDirectory p then (m, .ok ()) else (m, .error e)

/-- The machine after a directory and the missing ones above it have been made. -/
def makeDirectories (m : Machine) (p : Path) : Machine × Except IoError Unit :=
  makeDirectoriesFrom (p.components.length + 1) m p

end Machine

end ScriptAssembly
