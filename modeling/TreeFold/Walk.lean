import TreeFold.Ignore.Chain
import TreeFold.FileSystem.Write

/-!
# Walks

A walk lists the files below a directory, or the directories with given names. Globs to ignore
prune directories and drop files, globs to include keep only the files that match one of them; a
glob is matched against the path relative to the root of the walk. Ignore files and hidden names
are honoured when asked for. A symbolic link at the start is followed; those below it are neither
listed nor followed.

The results come in the order of their components.
-/

namespace TreeFold

/-- What a walk leaves out. -/
structure Walker where
  /-- Paths that are pruned or dropped. -/
  ignoreGlobs : Glob.Set
  /-- When present, only files that match are listed. -/
  includeGlobs? : Option Glob.Set
  respectIgnoreFiles : Bool
  includeHidden : Bool
  maxDepth? : Option Nat

/-- An entry met on a walk. -/
structure Walked where
  path : Path
  entry : Entry

namespace Walker

/-- A walker that ignores the given globs, honours ignore files and lists hidden names. -/
def ignoring (globs : Glob.Set) : Walker :=
  ⟨globs, none, true, true, none⟩

/-- Whether a name is hidden. -/
def isHidden (name : Name) : Bool :=
  name.head? = some '.' && name.getLast? ≠ some '.'

/-- Whether ignore files or hiding leave out an entry. -/
def leavesOut (walker : Walker) (chain : Ignore.Chain) (path : Path) (name : Name)
    (isDirectory : Bool) : Bool :=
  let verdict : Ignore.Verdict :=
    if walker.respectIgnoreFiles then chain.verdict path isDirectory else .silent
  match verdict with
  | .ignored => true
  | .kept => false
  | .silent => !walker.includeHidden && isHidden name

/-- Whether a directory below `base` is pruned. -/
def prunes (walker : Walker) (base path : Path) : Bool :=
  walker.ignoreGlobs.matches (path.relativeOrSelf base)

/-- Whether entries at a depth are listed. -/
def reaches (walker : Walker) (depth : Nat) : Bool :=
  walker.maxDepth?.all (depth ≤ ·)

/-- The entries below a directory at `depth`, to at most `levels` further levels. A directory whose
path cannot be followed, because it has become too long, shows nothing. -/
def descend (walker : Walker) (fs : FileSystem) (base : Path) :
    (levels : Nat) → Ignore.Chain → Path → Location → (depth : Nat) → List Walked
  | 0, _, _, _, _ => []
  | levels + 1, chain, directory, location, depth =>
    if !walker.reaches (depth + 1) || !fs.isDirectory directory then []
    else
      (fs.children location).flatMap fun (name, entry) =>
        let path := directory.child name
        let isDirectory := entry = .directory
        if walker.leavesOut chain path name isDirectory then []
        else if isDirectory then
          if walker.prunes base path then []
          else
            let inside := if walker.respectIgnoreFiles then chain.enter fs path else chain
            ⟨path, entry⟩ ::
              walker.descend fs base levels inside path (location ++ [name]) (depth + 1)
        else [⟨path, entry⟩]

/-- The entries below the directory that `start` names. -/
def below (walker : Walker) (fs : FileSystem) (base start : Path) : List Walked :=
  match fs.stat start with
  | .ok (location, .directory) =>
    let chain : Ignore.Chain :=
      if walker.respectIgnoreFiles then .atStart fs start location else ⟨[], [], location⟩
    walker.descend fs base fs.height chain start location 0
  | _ => []

/-- The start itself, when it is a file or a link to one. -/
def startFile (fs : FileSystem) (start : Path) : List Walked :=
  match fs.stat start with
  | .ok (_, .file bytes) => [⟨start, .file bytes⟩]
  | _ => []

/-- Whether the globs select a file below `root`. -/
def selects (walker : Walker) (root path : Path) : Bool :=
  let relative := path.relativeOrSelf root
  !walker.ignoreGlobs.matches relative && walker.includeGlobs?.all (·.matches relative)

/-- The name that stands for no place to walk. -/
def standardInput : Path := .ofString "-"

/-- The files below `start`, with globs matched against paths relative to `root`. -/
def filesIn (walker : Walker) (fs : FileSystem) (root start : Path) : List Path :=
  if start.same standardInput then []
  else
    let met := startFile fs start ++ walker.below fs root start
    let files := met.filterMap fun walked =>
      match walked.entry with
      | .file _ => some walked.path
      | _ => none
    Path.sort (files.filter (walker.selects root))

/-- The files below `root`. -/
def files (walker : Walker) (fs : FileSystem) (root : Path) : List Path :=
  walker.filesIn fs root root

/-- The directories below `root` that have one of the names. -/
def directoriesNamed (walker : Walker) (fs : FileSystem) (root : Path) (names : List Name) :
    List Path :=
  if root.same standardInput then []
  else
    let directories := (walker.below fs root root).filterMap fun walked =>
      if walked.entry = .directory then some walked.path else none
    Path.sort (directories.filter fun path => path.fileName?.any names.contains)

end Walker

end TreeFold
