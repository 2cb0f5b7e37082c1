/-!
# Failures of the machine

What can go wrong when a file, a directory or a program is asked for.
-/

namespace ScriptAssembly

/-- Why a file, a directory or a program could not be used. -/
inductive IoError where
  /-- Nothing is there. -/
  | notFound
  /-- A file that may not be run. -/
  | notPermitted
  /-- Something is there already. -/
  | alreadyExists
  /-- A file stands where a directory is needed. -/
  | notDirectory
  /-- A directory stands where a file is needed. -/
  | isDirectory
  /-- Symbolic links lead to each other without end. -/
  | linkLoop
  /-- The name of an entry is longer than a directory can hold. -/
  | nameTooLong
  /-- A file that is no program. -/
  | notProgram
  /-- A path with a null character in it. -/
  | nullInPath
  /-- An argument with a null character in it. -/
  | nullInArgument
  /-- The content of a file is not UTF-8. -/
  | notText
  /-- No directory above the wanted one can be made. -/
  | noAncestor
deriving DecidableEq, Repr

/-- The wording of a failure. -/
def IoError.message : IoError → String
  | .notFound => "No such file or directory (os error 2)"
  | .notPermitted => "Permission denied (os error 13)"
  | .alreadyExists => "File exists (os error 17)"
  | .notDirectory => "Not a directory (os error 20)"
  | .isDirectory => "Is a directory (os error 21)"
  | .linkLoop => "Too many levels of symbolic links (os error 40)"
  | .nameTooLong => "File name too long (os error 36)"
  | .notProgram => "Exec format error (os error 8)"
  | .nullInPath => "file name contained an unexpected NUL byte"
  | .nullInArgument => "nul byte found in provided data"
  | .notText => "stream did not contain valid UTF-8"
  | .noAncestor => "failed to create whole tree"

end ScriptAssembly
