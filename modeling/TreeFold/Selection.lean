import TreeFold.Path.Lexical
import TreeFold.SourceList
import TreeFold.Walk

/-!
# Selection of sources

The sources of a flattening are the files of a walk, the files of all directories with a given
name, or those that a list names. Sources that lie in the output directory are left out.
-/

namespace TreeFold

/-- Where sources are taken from. -/
inductive Selection where
  /-- The root and all below it. -/
  | root
  /-- The directories below the root with a name. -/
  | named (name : Name)
  /-- The entries of a list file. -/
  | listed (list : Path)

/-- Selected sources, and entries of a list that are no files. -/
structure Selected where
  sources : List Path
  missing : List Path

/-- Why nothing can be selected. -/
inductive SelectionError where
  | notDirectory (root : Path)
  | unreadableList (list : Path) (error : FileSystem.Error)
  /-- No directory has the name. -/
  | noneNamed (name : Name) (root : Path)

namespace Selection

/-- The paths with the later of any two of the same components left out. -/
def distinct (paths : List Path) : List Path :=
  paths.foldl (fun kept path => if kept.any path.same then kept else kept ++ [path]) []

/-- Select the sources below a root. -/
def select (walker : Walker) (fs : FileSystem) (root : Path) :
    Selection → Except SelectionError Selected
  | .root =>
    if fs.isDirectory root then .ok ⟨walker.files fs root, []⟩ else .error (.notDirectory root)
  | named name =>
    match walker.directoriesNamed fs root [name] with
    | [] => .error (.noneNamed name root)
    | directories => .ok ⟨distinct (directories.flatMap (walker.filesIn fs root)), []⟩
  | listed list =>
    match SourceList.read fs list root with
    | .ok (sources, missing) => .ok ⟨sources, missing⟩
    | .error e => .error (.unreadableList list e)

/-- Whether a path lies in a directory or is the directory, as both are spelled from the root. -/
def isWithin (workingDir : Location) (directory path : Path) : Bool :=
  match directory.absolute? workingDir, path.absolute? workingDir with
  | some above, some parts => above.isPrefixOf parts
  | _, _ => false

/-- The paths that do not lie in a directory. -/
def outside (workingDir : Location) (directory : Path) (paths : List Path) : List Path :=
  paths.filter fun path => !isWithin workingDir directory path

end Selection

end TreeFold
