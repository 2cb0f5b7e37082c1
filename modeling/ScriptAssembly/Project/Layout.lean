import ScriptAssembly.Path.Raw

/-!
# Where a project keeps its files

All paths of a project follow from its root: the directory for its own files, its configuration and
the stamp of the last build.  Nothing here looks at the disk.
-/

namespace ScriptAssembly

/-- The paths of a project. -/
structure Layout where
  /-- The project's directory. -/
  root : Path
deriving DecidableEq, Repr

namespace Layout

/-- The directory of the project's own files. -/
def metaDirectory (l : Layout) : Path := l.root.join ⟨".dll-forge"⟩

/-- The configuration. -/
def configPath (l : Layout) : Path := l.metaDirectory.join ⟨"project.json"⟩

/-- The stamp of the last build. -/
def stampPath (l : Layout) : Path := l.metaDirectory.join ⟨"last_build.json"⟩

/-- A path from the configuration or from the user: a relative one is read from the root. -/
def resolve (l : Layout) (p : Path) : Path := l.root.join p

/-- How a path is listed: what is below the root without it, anything else in full. -/
def display (l : Layout) (p : Path) : String := p.raw.display l.root.raw

end Layout

namespace Path

/-- The name of a project whose root this is: the name of the directory if there is one. -/
def projectName (root : Path) : String := root.fileName?.getD "unnamed-project"

end Path

end ScriptAssembly
