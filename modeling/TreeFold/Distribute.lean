import TreeFold.FileSystem.Read
import TreeFold.Path.Lexical
import TreeFold.Report
import TreeFold.Segment

/-!
# Distribution

Annotated blobs are split into segments, and each segment replaces the file at its path below a
target directory. All blobs are read before the first segment is written. A segment whose path is
absolute or steps up is not written but reported.
-/

namespace TreeFold.Distribute

/-- How blobs are distributed. -/
structure Options where
  /-- The directory that segment paths are put under. -/
  target : Path
  dryRun : Bool

/-- The path below `root` for a segment, when it stays there. -/
def destination? (root : Path) (segment : Text) : Option Path :=
  let path : Path := ⟨segment⟩
  if path.isContained then some (root.join path) else none

/-- The segments of a blob. -/
def readSegments (rules : List AliasRule) (fs : FileSystem) (blob : Path) :
    Except FileFailure (List Segment) :=
  match fs.readText blob with
  | .ok text => .ok (Segment.extract rules text)
  | .error e => .error (.read blob e)

/-- Write a segment of a blob. -/
def writeSegment (options : Options) (blob : Path) (batch : Batch) (segment : Segment) : Batch :=
  match destination? options.target segment.path with
  | none => batch.fail (.escaping blob segment.path)
  | some destination => batch.write options.dryRun destination segment.content

/-- Write the segments of a blob in order. -/
def writeBlob (options : Options) (batch : Batch)
    (read : Path × Except FileFailure (List Segment)) : Batch :=
  let batch : Batch := { batch with report := batch.report.recordInput }
  match read with
  | (_, .error failure) => batch.fail failure
  | (blob, .ok segments) => segments.foldl (writeSegment options blob) batch

/-- Distribute the blobs. -/
def files (options : Options) (rules : List AliasRule) (fs : FileSystem) (blobs : List Path) :
    Batch :=
  (blobs.map fun blob => (blob, readSegments rules fs blob)).foldl (writeBlob options)
    ⟨fs, .empty⟩

end TreeFold.Distribute
