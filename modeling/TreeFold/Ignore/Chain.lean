import TreeFold.Ignore.Rule
import TreeFold.FileSystem.Read

/-!
# Ignore files on the way to an entry

Each directory from the one that holds an entry up to the root may have ignore files: `.ignore`,
and in a repository `.gitignore` and the exclude file of the repository. The nearest directory
with something to say decides for each kind of file, and the kinds are asked in this order. The
files of a repository do not count beyond the directory that holds the repository. A user's own
excludes, which hold for all repositories and are asked last, are taken to be none.
-/

namespace TreeFold.Ignore

open Text

/-- The rules of one directory. -/
structure Level where
  directory : Path
  ignoreRules : RuleSet
  gitRules : RuleSet
  excludeRules : RuleSet
  /-- Whether the directory holds a repository. -/
  hasRepository : Bool

/-- The levels around an entry, nearest first: those of the walked directories, and those of the
directories above the walk. -/
structure Chain where
  walked : List Level
  above : List Level
  /-- The directory where the walk started, as a location. -/
  start : Location

/-- The rules of a file; a file that cannot be read has none. -/
def readRules (fs : FileSystem) (base : Path) (file : Path) : RuleSet :=
  match fs.readBytes file with
  | .ok bytes => RuleSet.ofBytes base.text bytes
  | .error _ => ⟨base.text, []⟩

/-- The first line of a file. -/
def firstLine? (fs : FileSystem) (file : Path) : Option Text :=
  match fs.readBytes file with
  | .ok bytes => ((byteLines bytes).head?).bind decodeUtf8?
  | .error _ => none

/-- The directory of a repository. When `.git` is a file, it names a directory whose `commondir`
names the repository. -/
def repositoryDirectory? (fs : FileSystem) (directory : Path) : Option Path :=
  let dotGit := directory.child ".git".toList
  if !fs.isFile dotGit then some dotGit
  else do
    let named ← dropStart? "gitdir: ".toList (← firstLine? fs dotGit)
    let line ← firstLine? fs (Path.child ⟨named⟩ "commondir".toList)
    return if line.head? = some '.' then Path.child ⟨named⟩ line else ⟨line⟩

/-- Read the ignore files of a directory. -/
def Level.read (fs : FileSystem) (directory : Path) : Level where
  directory := directory
  ignoreRules := readRules fs directory (directory.child ".ignore".toList)
  gitRules := readRules fs directory (directory.child ".gitignore".toList)
  excludeRules :=
    match repositoryDirectory? fs directory with
    | some repository => readRules fs directory (repository.child "info/exclude".toList)
    | none => ⟨directory.text, []⟩
  hasRepository :=
    fs.pathExists (directory.child ".git".toList) || fs.pathExists (directory.child ".jj".toList)

/-- The proper ancestors of a location, nearest first. -/
def ancestors (location : Location) : List Location :=
  (List.range location.length).reverse.map location.take

/-- The chain at the start of a walk. -/
def Chain.atStart (fs : FileSystem) (root : Path) (start : Location) : Chain where
  walked := [Level.read fs root]
  above := (ancestors start).map fun location => Level.read fs (Path.ofLocation location)
  start := start

/-- The chain inside a directory that has been entered. -/
def Chain.enter (fs : FileSystem) (chain : Chain) (directory : Path) : Chain :=
  { chain with walked := Level.read fs directory :: chain.walked }

/-- The path of an entry relative to where the walk started. -/
def relativeToStart (root : Path) (path : Text) : Text :=
  if root.same ⟨['.']⟩ then path
  else dropSlash ((dropStart? (dropCurrent root.text) path).getD path)

/-- The path of an entry from the root of the file system. -/
def Chain.absolutePath (chain : Chain) (path : Text) : Text :=
  match chain.walked.getLast? with
  | some level =>
    ((Path.ofLocation chain.start).join ⟨relativeToStart level.directory path⟩).text
  | none => ((Path.ofLocation chain.start).join ⟨path⟩).text

/-- The levels up to the first one that holds a repository. -/
def insideRepository : List (Level × Text) → List (Level × Text)
  | [] => []
  | (level, path) :: rest =>
    if level.hasRepository then [(level, path)] else (level, path) :: insideRepository rest

/-- The verdict of the nearest level that says anything. -/
def nearest (rules : Level → RuleSet) (isDirectory : Bool)
    (levels : List (Level × Text)) : Verdict :=
  (levels.map fun (level, path) => (rules level).verdict path isDirectory).foldr Verdict.orElse
    .silent

/-- What the ignore files say about an entry. -/
def Chain.verdict (chain : Chain) (path : Path) (isDirectory : Bool) : Verdict :=
  let shown := dropCurrent path.text
  let levels := chain.walked.map (·, shown) ++ chain.above.map (·, chain.absolutePath shown)
  let repository :=
    if levels.any fun (level, _) => level.hasRepository then insideRepository levels else []
  (nearest (·.ignoreRules) isDirectory levels).orElse
    ((nearest (·.gitRules) isDirectory repository).orElse
      (nearest (·.excludeRules) isDirectory repository))

end TreeFold.Ignore
