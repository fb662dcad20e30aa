import TreeFold.FileSystem.Read
import TreeFold.Text.Blank

/-!
# Lists of sources

A list file names one path a line, absolute or relative to a root; blanks around a path and blank
lines do not count. Lines of a list end in line feeds only.
-/

namespace TreeFold.SourceList

open Text

/-- The paths that a list names, in order. -/
def entries (root : Path) (text : Text) : List Path :=
  ((text.splitOn '\n').map trim).filterMap fun line =>
    if line = [] then none else some (root.join ⟨line⟩)

/-- The entries of a list that are files and those that are not, each in order. -/
def split (fs : FileSystem) (paths : List Path) : List Path × List Path :=
  paths.partition fs.isFile

/-- Read a list file: the files it names, and the entries that are no files. -/
def read (fs : FileSystem) (list root : Path) :
    Except FileSystem.Error (List Path × List Path) :=
  (fs.readText list).map fun text => split fs (entries root text)

/-- The complaint about a list that cannot be read. -/
def failureMessage (list : Path) : Text :=
  "Failed to read list file ".toList ++ list.text

end TreeFold.SourceList
