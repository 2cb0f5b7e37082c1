/-!
# Searching a text

`after?` looks for a word at the very start of a text; `leftmost?` tries a reading at every place of
a text and takes the first that succeeds.
-/

namespace ScriptAssembly.Text

/-- What follows `word`, if the text starts with it. -/
def after? (word : String) (s : List Char) : Option (List Char) :=
  word.toList.isPrefixOf? s

/-- The text starts with `word`. -/
def startsWith (word : String) (s : List Char) : Bool := (after? word s).isSome

/-- The first success of `read` over the places of the text, from the left. -/
def leftmost? {α : Type} (read : List Char → Option α) : List Char → Option α
  | [] => read []
  | c :: rest =>
    match read (c :: rest) with
    | some found => some found
    | none => leftmost? read rest

/-- `word` occurs somewhere in the text. -/
def contains (word : String) (s : List Char) : Bool := (leftmost? (after? word) s).isSome

end ScriptAssembly.Text
