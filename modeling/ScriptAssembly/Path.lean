import ScriptAssembly.Text.Split

/-!
# Paths

A path is kept as the text it was written with, and compared by its components: repeated slashes,
a slash at the end and `.` after the first component carry no meaning, while `..` and a leading
`.` do.  The operations that cut a path return a part of its text, so the spelling of what is left
survives.
-/

namespace ScriptAssembly

/-- A path, kept exactly as it was written. -/
structure Path where
  /-- The written form. -/
  text : String
deriving DecidableEq, Inhabited, Repr

namespace Path

/-- What a path is compared by. -/
inductive Component where
  /-- The root directory, at the start of an absolute path. -/
  | root
  /-- A leading `.`. -/
  | current
  /-- The directory above. -/
  | parent
  /-- An entry of the directory reached so far. -/
  | entry (name : String)
deriving DecidableEq, Repr

/-- How a path begins, before its first named piece. -/
inductive Lead where
  /-- A slash: the path is absolute. -/
  | root
  /-- A leading `.`. -/
  | current
  /-- Neither. -/
  | none
deriving DecidableEq, Repr

/-- The written form of a lead. -/
def Lead.chars : Lead → List Char
  | .root => ['/']
  | .current => ['.']
  | .none => []

/-- The components that a lead stands for. -/
def Lead.components : Lead → List Component
  | .root => [.root]
  | .current => [.current]
  | .none => []

/-- The lead of a written path and the text behind it. -/
def cutLead : List Char → Lead × List Char
  | '/' :: rest => (.root, rest)
  | ['.'] => (.current, [])
  | '.' :: '/' :: rest => (.current, '/' :: rest)
  | s => (.none, s)

/-- The component a piece between slashes stands for, if it carries a meaning. -/
def component? (piece : List Char) : Option Component :=
  if piece = [] ∨ piece = ['.'] then none
  else if piece = ['.', '.'] then some .parent
  else some (.entry (.ofList piece))

/-- The pieces between the slashes behind the lead. -/
def pieces (p : Path) : List (List Char) :=
  Text.split '/' (cutLead p.text.toList).2

/-- The lead of a path. -/
def lead (p : Path) : Lead := (cutLead p.text.toList).1

/-- The components of a path. -/
def components (p : Path) : List Component :=
  p.lead.components ++ p.pieces.filterMap component?

/-- Two spellings of one path. -/
def Same (p q : Path) : Prop := p.components = q.components

instance (p q : Path) : Decidable (p.Same q) :=
  inferInstanceAs (Decidable (p.components = q.components))

theorem Same.symm {p q : Path} (hsame : p.Same q) : q.Same p := Eq.symm hsame

theorem Same.trans {p q r : Path} (hsame : p.Same q) (hnext : q.Same r) : p.Same r :=
  Eq.trans hsame hnext

/-- The path starts at the root. -/
def isAbsolute (p : Path) : Bool := p.lead = .root

/-- A relative path is read from `base`; an absolute one stays as it is. -/
def join (base p : Path) : Path :=
  let chars := base.text.toList
  if p.isAbsolute then p
  else if chars = [] ∨ chars.getLast? = some '/' then ⟨base.text ++ p.text⟩
  else ⟨base.text ++ "/" ++ p.text⟩

/-- A piece that stands for no component. -/
def isSilent (piece : List Char) : Bool := (component? piece).isNone

/-- The pieces without the silent ones at the end. -/
def dropSilentEnd (parts : List (List Char)) : List (List Char) :=
  (parts.reverse.dropWhile isSilent).reverse

/-- A path from a lead and the pieces behind it. -/
def ofPieces (lead : Lead) (parts : List (List Char)) : Path :=
  ⟨.ofList (lead.chars ++ Text.join '/' parts)⟩

/-- The path of the directory that holds the last component; nothing is above a root or an empty
path. -/
def parent? (p : Path) : Option Path :=
  match dropSilentEnd p.pieces with
  | [] => if p.lead = .current then some ⟨""⟩ else none
  | parts => some (ofPieces p.lead (dropSilentEnd parts.dropLast))

/-- The path without the slashes behind its last name. -/
def withoutEndSlashes (p : Path) : Path :=
  let chars := p.text.toList.reverse.dropWhile (· = '/')
  if chars = [] then p else ⟨.ofList chars.reverse⟩

/-- The name of the last component, unless that is a root, `.` or `..`. -/
def fileName? (p : Path) : Option String :=
  match (p.pieces.filterMap component?).getLast? with
  | some (.entry name) => some name
  | _ => none

/-- What follows the last dot of a name; a dot at the start of the name does not count. -/
def extensionOf (name : List Char) : Option (List Char) :=
  match Text.split '.' name with
  | [] | [_] => none
  | first :: others => if first = [] ∧ others.length = 1 then none else others.getLast?

/-- The extension of the last component's name. -/
def extension? (p : Path) : Option String :=
  p.fileName?.bind fun name => (extensionOf name.toList).map .ofList

/-- The pieces left after the first `count` components. -/
def dropComponents : Nat → List (List Char) → List (List Char)
  | 0, parts => parts
  | _ + 1, [] => []
  | count + 1, part :: parts =>
    if isSilent part then dropComponents (count + 1) parts else dropComponents count parts

/-- The rest of `p` below `base`, if the components of `base` begin those of `p`. -/
def below? (p base : Path) : Option Path :=
  if base.components.isPrefixOf p.components then
    match base.components.length with
    | 0 => some (ofPieces p.lead (dropSilentEnd p.pieces))
    | count =>
      let parts := dropComponents (count - p.lead.components.length) p.pieces
      some (ofPieces .none (dropSilentEnd (parts.dropWhile isSilent)))
  else none

end Path

end ScriptAssembly
