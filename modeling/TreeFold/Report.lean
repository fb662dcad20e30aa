import TreeFold.FileSystem.Write

/-!
# Batch reports

A batch goes on when a file fails: the failure is kept in the report. The report counts the files
looked at, written and skipped, and lists the outputs and failures in their order. What is said
along the way, about failures and skipped files alike, is kept as warnings.
-/

namespace TreeFold

/-- The failure of one file in a batch. -/
inductive FileFailure where
  | read (path : Path) (error : FileSystem.Error)
  | write (path : Path) (error : FileSystem.Error)
  | missing (path : Path)
  /-- A segment whose path would leave the target directory. -/
  | escaping (blob : Path) (segment : Text)
deriving DecidableEq, Repr

namespace FileFailure

/-- The label of the kind of failure. -/
def kind : FileFailure → String
  | read .. => "read"
  | write .. => "write"
  | missing .. => "missing"
  | escaping .. => "unsafe-destination"

/-- The file that the failure belongs to. -/
def path : FileFailure → Path
  | read path _ | write path _ | missing path => path
  | escaping blob _ => blob

/-- The wording of the failure. -/
def message : FileFailure → Text
  | read path error =>
    "cannot read ".toList ++ path.text ++ ": ".toList ++ error.message.toList
  | write path error =>
    "cannot write ".toList ++ path.text ++ ": ".toList ++ error.message.toList
  | missing path => "file does not exist: ".toList ++ path.text
  | escaping blob segment =>
    "segment path '".toList ++ segment ++ "' from ".toList ++ blob.text ++
      " escapes the target root".toList

end FileFailure

/-- The outcome of a batch. -/
structure Report where
  /-- Input files looked at. -/
  processed : Nat
  /-- Files written, or to be written in a dry run. -/
  written : Nat
  /-- Files skipped because their name was taken. -/
  skipped : Nat
  /-- The destinations in the order of writing. -/
  outputs : List Path
  failures : List FileFailure
  /-- The warnings given along the way. -/
  warnings : List Text
deriving DecidableEq, Repr

namespace Report

/-- The report before the first file. -/
def empty : Report := ⟨0, 0, 0, [], [], []⟩

/-- Count a file that is looked at. -/
def recordInput (report : Report) : Report :=
  { report with processed := report.processed + 1 }

/-- Record a written file. -/
def recordWrite (report : Report) (destination : Path) : Report :=
  { report with
    written := report.written + 1
    outputs := report.outputs ++ [destination] }

/-- Record a skipped file with its warning. -/
def recordSkip (report : Report) (warning : Text) : Report :=
  { report with
    skipped := report.skipped + 1
    warnings := report.warnings ++ [warning] }

/-- Record a failure, which is a warning too. -/
def recordFailure (report : Report) (failure : FileFailure) : Report :=
  { report with
    failures := report.failures ++ [failure]
    warnings := report.warnings ++ [failure.message] }

/-- Whether no file failed. -/
def isClean (report : Report) : Bool :=
  report.failures.isEmpty

end Report

/-- A batch on its way: the file system and the report so far. -/
structure Batch where
  fs : FileSystem
  report : Report

namespace Batch

/-- Record a failure. -/
def fail (batch : Batch) (failure : FileFailure) : Batch :=
  { batch with report := batch.report.recordFailure failure }

/-- Write a text to its destination and record the outcome; a dry run records the write only. -/
def write (batch : Batch) (dryRun : Bool) (destination : Path) (text : Text) : Batch :=
  if dryRun then { batch with report := batch.report.recordWrite destination }
  else
    match batch.fs.overwrite destination text with
    | ⟨none, fs⟩ => ⟨fs, batch.report.recordWrite destination⟩
    | ⟨some e, fs⟩ => ⟨fs, batch.report.recordFailure (.write destination e)⟩

end Batch

end TreeFold
