import TreeFold.Comment
import TreeFold.FileName
import TreeFold.FileSystem.Read
import TreeFold.Path.Lexical
import TreeFold.Report

/-!
# Flattening

Source files are copied into one directory, each under its own file name and headed by an
annotation with its path relative to a base directory. A name that is taken is skipped or
numbered. A name counts as taken when the file system has it or it was given out before, so that
a dry run and a real run give the same names.

Sources are rendered a chunk at a time, and the files of a chunk are written before the next
chunk is read.
-/

namespace TreeFold

/-- What to do with a file whose name is taken. -/
inductive CollisionPolicy where
  | skipExisting
  | renameWithSuffix
deriving DecidableEq, Repr

namespace CollisionPolicy

/-- All policies. -/
def all : List CollisionPolicy := [skipExisting, renameWithSuffix]

/-- The name of a policy. -/
def label : CollisionPolicy → String
  | skipExisting => "skip-existing"
  | renameWithSuffix => "rename-with-suffix"

/-- The policy of a name. -/
def ofLabel? (label : String) : Option CollisionPolicy :=
  all.find? (·.label = label)

end CollisionPolicy

/-- The output directory with the paths given out so far. -/
structure NameAllocator where
  directory : Path
  policy : CollisionPolicy
  /-- The components of the paths given out, the latest first. -/
  claimed : List (List Component)

namespace NameAllocator

/-- An allocator that has given out nothing. -/
def new (directory : Path) (policy : CollisionPolicy) : NameAllocator :=
  ⟨directory, policy, []⟩

/-- Whether a path is taken. -/
def isTaken (names : NameAllocator) (fs : FileSystem) (path : Path) : Bool :=
  names.claimed.contains path.components || fs.pathExists path

/-- The path of a name with a number. -/
def candidate (names : NameAllocator) (name : Name) (n : Nat) : Path :=
  names.directory.child (FileName.numbered name n)

/-- The first free path of a numbered name, of `tries` numbers from `n` on. -/
def firstFree? (names : NameAllocator) (fs : FileSystem) (name : Name) :
    (tries n : Nat) → Option Path
  | 0, _ => none
  | tries + 1, n =>
    if names.isTaken fs (names.candidate name n) then
      names.firstFree? fs name tries (n + 1)
    else some (names.candidate name n)

/-- The path for a name: its own when free, else as the policy says. As many numbers are tried as
there are paths that could take one, and one more. -/
def choose? (names : NameAllocator) (fs : FileSystem) (name : Name) : Option Path :=
  let direct := names.directory.child name
  if !names.isTaken fs direct then some direct
  else
    match names.policy with
    | .skipExisting => none
    | .renameWithSuffix =>
      names.firstFree? fs name (names.claimed.length + fs.entries.length + 1) 1

/-- Give out a path for a name. -/
def allocate (names : NameAllocator) (fs : FileSystem) (name : Name) :
    Option Path × NameAllocator :=
  match names.choose? fs name with
  | some path => (some path, { names with claimed := path.components :: names.claimed })
  | none => (none, names)

end NameAllocator

namespace Flatten

/-- How sources are flattened. -/
structure Options where
  outDir : Path
  /-- Annotations give paths relative to this directory. -/
  base : Path
  collision : CollisionPolicy
  stripComments : Bool
  dryRun : Bool

/-- The path shown when a source has none relative to the base. -/
def unknownPath : Text := "<unknown path>".toList

/-- The annotation line for a source, with the blank line that follows it. -/
def header (workingDir : Location) (source base : Path) : Text :=
  let shown :=
    match source.stepsFrom? workingDir base with
    | some steps => steps.text
    | none => unknownPath
  "// ".toList ++ shown ++ ['\n', '\n']

/-- The flattened text of a source: its header and its body. -/
def render (options : Options) (fs : FileSystem) (source : Path) : Except FileFailure Text :=
  match fs.readText source with
  | .error e => .error (.read source e)
  | .ok text =>
    let body := if options.stripComments then Comment.strip text else text
    .ok (header fs.workingDir source options.base ++ body)

/-- A run on its way: the batch and the names given out. -/
structure Run where
  batch : Batch
  names : NameAllocator

/-- The warning for a source that is skipped. -/
def skipMessage (options : Options) (source : Path) (name : Name) : Text :=
  "skipping ".toList ++ source.text ++ ": ".toList ++ name ++ " already exists in ".toList ++
    options.outDir.text

/-- Name and write one rendered source. -/
def writeRendered (options : Options) (run : Run) (source : Path)
    (rendered : Except FileFailure Text) : Run :=
  let batch : Batch := { run.batch with report := run.batch.report.recordInput }
  match rendered, source.fileName? with
  | .error failure, _ => { run with batch := batch.fail failure }
  | .ok _, none => { run with batch := batch.fail (.missing source) }
  | .ok text, some name =>
    match run.names.allocate batch.fs name with
    | (none, names) =>
      let warning := skipMessage options source name
      ⟨{ batch with report := batch.report.recordSkip warning }, names⟩
    | (some destination, names) => ⟨batch.write options.dryRun destination text, names⟩

/-- Render the sources of a chunk, then write them in order. -/
def writeChunk (options : Options) (run : Run) (chunk : List Path) : Run :=
  (chunk.map fun source => (source, render options run.batch.fs source)).foldl
    (fun run (source, rendered) => writeRendered options run source rendered) run

/-- Cut a list into chunks of `size + 1`, with fuel for one chunk each. -/
def chunks {α : Type} (size : Nat) : (fuel : Nat) → List α → List (List α)
  | _, [] => []
  | 0, items => [items]
  | fuel + 1, items => items.take (size + 1) :: chunks size fuel (items.drop (size + 1))

/-- Flatten the sources in chunks; a size of zero counts as one. -/
def inChunks (options : Options) (size : Nat) (fs : FileSystem) (sources : List Path) : Batch :=
  let start : Run := ⟨⟨fs, .empty⟩, .new options.outDir options.collision⟩
  ((chunks (size - 1) sources.length sources).foldl (writeChunk options) start).batch

/-- How many files are rendered at once. -/
def chunkSize : Nat := 256

/-- Flatten the sources. -/
def files (options : Options) (fs : FileSystem) (sources : List Path) : Batch :=
  inChunks options chunkSize fs sources

/-- Record the sources that are missing. -/
def withMissing (batch : Batch) (missing : List Path) : Batch :=
  missing.foldl (fun batch path =>
    Batch.fail { batch with report := batch.report.recordInput } (.missing path)) batch

end Flatten

end TreeFold
