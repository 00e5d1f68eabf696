/-!
# Access to files

What the commands need of a file system: reading a file, creating a directory with all that lead
to it, and writing a file.  Each may fail for one of a few reasons.  The commands are written
against `FileAccess`, so that they run on the files of the machine and on a `FileTree` alike.
-/

namespace ApiScribe

/-- The reasons for which an access to a file fails. -/
inductive FileError where
  /-- There is nothing under the path. -/
  | notFound
  /-- There is something under the path already. -/
  | exists
  /-- The path leads through something that is no directory. -/
  | notDirectory
  /-- The path leads to a directory. -/
  | isDirectory
  /-- A name in the path is too long. -/
  | nameTooLong
  /-- Any other reason, in words. -/
  | other (reason : String)
deriving DecidableEq, Repr, Inhabited

/-- The wording of a reason. -/
def FileError.message : FileError → String
  | .notFound => "No such file or directory (os error 2)"
  | .exists => "File exists (os error 17)"
  | .notDirectory => "Not a directory (os error 20)"
  | .isDirectory => "Is a directory (os error 21)"
  | .nameTooLong => "File name too long (os error 36)"
  | .other reason => reason

/-- The ways of reaching files. -/
class FileAccess (m : Type → Type) where
  /-- The text of a file. -/
  read (path : String) : m (Except FileError String)
  /-- Create a directory, and those that lead to it, as far as they are missing. -/
  createDirectories (path : String) : m (Except FileError Unit)
  /-- Write a file, in place of the one that may be there. -/
  write (path content : String) : m (Except FileError Unit)

/-- The path of a name in a directory. -/
def joinPath (directory name : String) : String :=
  if directory.toList.getLast? = some '/' then directory ++ name else directory ++ "/" ++ name

end ApiScribe
