/-!
# Failures of file operations
-/

namespace Bindery

/-- Why a file operation fails. -/
inductive FileError where
  /-- Nothing is at the path. -/
  | missing
  /-- What would have to be a file is a directory. -/
  | isDirectory
  /-- What would have to be made is there already. -/
  | alreadyThere
  /-- What would have to be a directory is a file. -/
  | notDirectory
  /-- The bytes of a file are no text. -/
  | notText
  deriving DecidableEq, Repr

/-- The words of the system for a failure. -/
def FileError.reason : FileError → String
  | missing => "No such file or directory (os error 2)"
  | isDirectory => "Is a directory (os error 21)"
  | alreadyThere => "File exists (os error 17)"
  | notDirectory => "Not a directory (os error 20)"
  | notText => "stream did not contain valid UTF-8"

end Bindery
