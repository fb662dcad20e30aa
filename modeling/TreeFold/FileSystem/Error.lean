import TreeFold.Text.Basic

/-!
# Errors of the file system

The causes for which an access fails, and their wording with the number of the system's error.
-/

namespace TreeFold.FileSystem

/-- Why an access to the file system failed. -/
inductive Error where
  | notFound
  | alreadyExists
  | notDirectory
  | isDirectory
  | nameTooLong
  | tooManyLinks
  /-- The path holds a character that no path can hold. -/
  | nulCharacter
deriving DecidableEq, Repr

/-- The wording of an error. -/
def Error.message : Error → String
  | notFound => "No such file or directory (os error 2)"
  | alreadyExists => "File exists (os error 17)"
  | notDirectory => "Not a directory (os error 20)"
  | isDirectory => "Is a directory (os error 21)"
  | nameTooLong => "File name too long (os error 36)"
  | tooManyLinks => "Too many levels of symbolic links (os error 40)"
  | nulCharacter => "file name contained an unexpected NUL byte"

end TreeFold.FileSystem
