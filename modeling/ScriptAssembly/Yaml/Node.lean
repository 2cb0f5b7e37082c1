import ScriptAssembly.Yaml.Token

/-!
# YAML documents

The tokens of a text are read as one document, a tree of nodes.  An alias is the node that its
anchor names at that point of the text; inside that very node it has no value.
-/

namespace ScriptAssembly.Yaml

/-- A node of a document. -/
inductive Node where
  /-- A text.  A lone exclamation mark as its tag counts as none. -/
  | scalar (tag : Option String) (style : Style) (text : String)
  /-- Nodes in order. -/
  | sequence (items : List Node)
  /-- Keys with their values. -/
  | mapping (members : List (Node × Node))
  /-- A node that contains the place where it is used. -/
  | circular

instance : Inhabited Node := ⟨.circular⟩

namespace Node

/-- The node of a place where nothing is written. -/
def blank : Node := .scalar none .plain ""

end Node

/-- What is known while a document is read. -/
structure Reading where
  /-- The tokens that have not been read. -/
  tokens : List Token
  /-- The anchors and their nodes by number, the latest first. -/
  anchors : List (Nat × String × Node) := []
  /-- The handles of tags and what they stand for. -/
  handles : List (String × String) := []

/-- Reads a part of a document. -/
abbrev Reader (α : Type) := StateT Reading Option α

namespace Reader

/-- The text is no document. -/
def fail {α : Type} : Reader α := fun _ => none

/-- The token that comes next. -/
def peek : Reader Token := return (← get).tokens.headD .streamEnd

/-- Moves behind a token. -/
def drop : Reader Unit := modify fun reading => { reading with tokens := reading.tokens.tail }

/-- Moves behind the next token if it is the given one. -/
def accept (token : Token) : Reader Bool := do
  if (← peek) = token then
    drop
    return true
  else return false

/-- Names a node from here on, until it is known as one that contains itself; the result is the
number to make it known by. -/
def anchor (name : String) : Reader Nat := do
  let number := (← get).anchors.length
  modify fun reading => { reading with anchors := (number, name, .circular) :: reading.anchors }
  return number

/-- The node that has been named is known. -/
def settle (number : Option Nat) (node : Node) : Reader Node := do
  match number with
  | none => return node
  | some number =>
    modify fun reading => { reading with
      anchors := reading.anchors.map fun (known, name, old) =>
        (known, name, if known = number then node else old) }
    return node

/-- The node that an alias stands for. -/
def aliased (name : String) : Reader Node := do
  match (← get).anchors.find? fun known => known.2.1 = name with
  | some (_, _, node) => return node
  | none => fail

/-- The tag that a handle and a suffix make. -/
def tagOf (handle suffix : String) : Reader String := do
  if handle = "" then return suffix
  else
    match (← get).handles.lookup handle with
    | some start => return start ++ suffix
    | none => fail

/-- The name and the tag in front of a node, in either order. -/
def properties : Reader (Option Nat × Option String) := do
  match ← peek with
  | .anchor name =>
    drop
    let number ← anchor name
    match ← peek with
    | .tag handle suffix =>
      drop
      return (some number, some (← tagOf handle suffix))
    | _ => return (some number, none)
  | .tag handle suffix =>
    drop
    let tag ← tagOf handle suffix
    match ← peek with
    | .anchor name =>
      drop
      return (some (← anchor name), some tag)
    | _ => return (none, some tag)
  | _ => return (none, none)

/-- Nothing is written in front of this token where an entry of an indented sequence is expected. -/
def endsEntry (token : Token) : Bool := token = .entry || token = .blockEnd

/-- Nothing is written in front of this token where a key or a value is expected. -/
def endsMember (token : Token) : Bool := token = .key || token = .value || token = .blockEnd

mutual

/-- A node.  Indented collections are admitted where `block` holds, and entries of a sequence that
is not indented any further where `level` holds. -/
def node : Nat → Bool → Bool → Reader Node
  | 0, _, _ => fail
  | depth + 1, block, level => do
    match ← peek with
    | .alias name =>
      drop
      aliased name
    | _ =>
      let (number, tag) ← properties
      match ← peek, block with
      | .entry, _ =>
        if level then settle number (.sequence (← levelEntries depth))
        else if number.isSome ∨ tag.isSome then settle number (.scalar tag .plain "")
        else fail
      | .scalar style text, _ =>
        drop
        settle number (.scalar (tag.filter (· ≠ "!")) style text)
      | .openBracket, _ =>
        drop
        settle number (.sequence (← flowItems depth true))
      | .openBrace, _ =>
        drop
        settle number (.mapping (← flowMembers depth true))
      | .blockSequence, true =>
        drop
        settle number (.sequence (← entries depth))
      | .blockMapping, true =>
        drop
        settle number (.mapping (← members depth))
      | _, _ =>
        if number.isSome ∨ tag.isSome then settle number (.scalar tag .plain "") else fail

/-- A node of an indented collection, which is blank before a token that ends its place. -/
def nodeUnless : Nat → Bool → (Token → Bool) → Reader Node
  | 0, _, _ => fail
  | depth + 1, level, ends => do
    if ends (← peek) then return .blank else node depth true level

/-- A node between brackets or braces, which is blank before a token that ends its place. -/
def flowNodeUnless : Nat → List Token → Reader Node
  | 0, _ => fail
  | depth + 1, ends => do
    if ends.contains (← peek) then return .blank else node depth false false

/-- The entries of an indented sequence. -/
def entries : Nat → Reader (List Node)
  | 0 => fail
  | depth + 1 => do
    if ← accept .entry then
      let item ← nodeUnless depth false endsEntry
      return item :: (← entries depth)
    else if ← accept .blockEnd then return []
    else fail

/-- The entries of a sequence that is indented no further than the mapping it belongs to. -/
def levelEntries : Nat → Reader (List Node)
  | 0 => fail
  | depth + 1 => do
    if ← accept .entry then
      let item ← nodeUnless depth false fun token => endsMember token || token = .entry
      return item :: (← levelEntries depth)
    else return []

/-- The value of a member of an indented mapping. -/
def memberValue : Nat → Reader Node
  | 0 => fail
  | depth + 1 => do
    if ← accept .value then nodeUnless depth true endsMember else return .blank

/-- The members of an indented mapping. -/
def members : Nat → Reader (List (Node × Node))
  | 0 => fail
  | depth + 1 => do
    if ← accept .key then
      let key ← nodeUnless depth true endsMember
      let value ← memberValue depth
      return (key, value) :: (← members depth)
    else if ← accept .blockEnd then return []
    else fail

/-- The items between brackets; a comma stands in front of each but the first one. -/
def flowItems : Nat → Bool → Reader (List Node)
  | 0, _ => fail
  | depth + 1, first => do
    if ← accept .closeBracket then return []
    if !first then
      if !(← accept .comma) then fail
    if ← accept .closeBracket then return []
    let item ← flowItem depth
    return item :: (← flowItems depth false)

/-- An item between brackets: a node, or a mapping of a single member. -/
def flowItem : Nat → Reader Node
  | 0 => fail
  | depth + 1 => do
    if ← accept .key then
      let key ← if [.value, .comma, .closeBracket].contains (← peek) then do
          drop
          pure Node.blank
        else node depth false false
      let value ← flowValue depth [.comma, .closeBracket]
      return .mapping [(key, value)]
    else node depth false false

/-- The value of a member between brackets or braces. -/
def flowValue : Nat → List Token → Reader Node
  | 0, _ => fail
  | depth + 1, ends => do
    if ← accept .value then flowNodeUnless depth ends else return .blank

/-- The members between braces; a comma stands in front of each but the first one. -/
def flowMembers : Nat → Bool → Reader (List (Node × Node))
  | 0, _ => fail
  | depth + 1, first => do
    if ← accept .closeBrace then return []
    if !first then
      if !(← accept .comma) then fail
    if ← accept .closeBrace then return []
    let member ← if ← accept .key then do
        let key ← flowNodeUnless depth [.value, .comma, .closeBrace]
        let value ← flowValue depth [.comma, .closeBrace]
        pure (key, value)
      else do
        let key ← node depth false false
        pure (key, .blank)
    return member :: (← flowMembers depth false)

end

/-- The handles that are known in every document. -/
def usualHandles : List (String × String) := [("!", "!"), ("!!", "tag:yaml.org,2002:")]

/-- The directives in front of a document, at most `steps` of them; `versioned` holds behind one on
the version. -/
def directives : Nat → Bool → Reader Unit
  | 0, _ => fail
  | steps + 1, versioned => do
    match ← peek with
    | .version major minor =>
      if versioned ∨ major ≠ 1 ∨ (minor ≠ 1 ∧ minor ≠ 2) then fail
      drop
      directives steps true
    | .handle name start =>
      if ((← get).handles.lookup name).isSome then fail
      drop
      modify fun reading => { reading with handles := (name, start) :: reading.handles }
      directives steps versioned
    | _ => modify fun reading => { reading with handles := reading.handles ++ usualHandles }

/-- The token starts a document that is marked as one. -/
def startsMarked (token : Token) : Bool :=
  match token with
  | .version .. | .handle .. | .documentStart => true
  | _ => false

/-- The only document of a text; an empty text has none. -/
def document (depth : Nat) : Reader (Option Node) := do
  let token ← peek
  if token = .streamEnd then return none
  directives depth false
  let root ←
    if startsMarked token then do
      if !(← accept .documentStart) then fail
      let next ← peek
      if startsMarked next ∨ next = .documentEnd ∨ next = .streamEnd then pure Node.blank
      else node depth true false
    else node depth true false
  let others := (← get).tokens.dropWhile (· = .documentEnd)
  if others = [.streamEnd] then return some root else fail

end Reader

/-- The document in a text, if the text holds one at most. -/
def Node.ofText? (text : List Char) : Option (Option Node) := do
  let tokens ← Token.ofText? text
  (Reader.document (8 * tokens.length + 8)).run' { tokens }

end ScriptAssembly.Yaml
