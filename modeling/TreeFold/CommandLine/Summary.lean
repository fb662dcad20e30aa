import TreeFold.CommandLine.Outcome
import TreeFold.Path.Encoding
import TreeFold.Report
import TreeFold.Style
import TreeFold.Table
import TreeFold.Value.Json.Writer

/-!
# Summaries of batches

At the end of a batch its report is shown: as JSON, or as a line with the counts, the destinations
when they are wanted, and a table of the failures among the diagnostics. A strict batch fails when
a file failed. A report with a destination that is not UTF-8 cannot be shown as JSON, and then the
batch fails and shows nothing.
-/

namespace TreeFold.CommandLine

open Value

/-- How a batch ends. -/
structure BatchEnd where
  /-- The name of the batch in what is printed. -/
  label : String
  json : Bool
  /-- Whether a failed file fails the command. -/
  strict : Bool

/-- A failure as JSON. -/
def failureJson (failure : FileFailure) : Text :=
  Json.writeObject [("kind", Json.writeString failure.kind.toList),
    ("path", Json.writeString failure.path.text), ("message", Json.writeString failure.message)]

/-- A report as JSON, when all destinations are UTF-8. -/
def reportJson? (encoding : Path.Encoding) (report : Report) : Option Text := do
  let outputs ← report.outputs.mapM encoding.text?
  return Json.writeObject [("processed", Json.writeCount report.processed),
    ("written", Json.writeCount report.written), ("skipped", Json.writeCount report.skipped),
    ("outputs", Json.writeArray (outputs.map Json.writeString)),
    ("failures", Json.writeArray (report.failures.map failureJson))]

/-- The line with the counts of a report. -/
def countsLine (flags : Flags) (label : String) (report : Report) : Text :=
  label.toList ++ ": processed ".toList ++ Nat.toDigits 10 report.processed ++
    (if flags.dryRun then ", would write " else ", wrote ").toList ++
    Nat.toDigits 10 report.written ++ ", skipped ".toList ++ Nat.toDigits 10 report.skipped ++
    ", failed ".toList ++ Nat.toDigits 10 report.failures.length

/-- The line with the counts, behind a mark that tells whether all went well. -/
def summaryLine (flags : Flags) (label : String) (report : Report) : Text :=
  let line := countsLine flags label report
  if flags.noColor then line
  else if report.isClean then Colour.green.paint ['✓'] ++ ' ' :: line
  else Colour.yellow.paint ['!'] ++ ' ' :: line

/-- The destinations of a report, when they are wanted. -/
def destinationLines (flags : Flags) (report : Report) : List Text :=
  if flags.verbose then report.outputs.map fun path => "  -> ".toList ++ path.text else []

/-- The failures of a report as a table. -/
def failureTable (failures : List FileFailure) : Table where
  header := ["kind".toList, "path".toList, "message".toList]
  rows := failures.map fun failure => [failure.kind.toList, failure.path.text, failure.message]

/-- What a dry run says it would write. -/
def dryRunLines (flags : Flags) (json : Bool) (report : Report) : List Text :=
  if flags.dryRun && !flags.quiet && !json then
    Colour.yellow.paint "DRY RUN: Would write:".toList ::
      report.outputs.map fun path => ' ' :: ' ' :: path.text
  else []

/-- The lines that show a report, when it can be shown. -/
def reportLines? (flags : Flags) (encoding : Path.Encoding) (finish : BatchEnd)
    (report : Report) : Option (List Text) :=
  if finish.json then (reportJson? encoding report).map fun line => [line]
  else if flags.quiet then some []
  else some (summaryLine flags finish.label report :: destinationLines flags report)

/-- The diagnostics that show a report. -/
def reportDiagnostics (flags : Flags) (finish : BatchEnd) (report : Report) : List Text :=
  if finish.json || flags.quiet || report.isClean then []
  else [(failureTable report.failures).render]

/-- The error of a strict batch with failed files. -/
def strictError? (finish : BatchEnd) (report : Report) : Option CommandError :=
  if finish.strict && !report.isClean then
    some (.failedFiles finish.label report.failures.length)
  else none

/-- The outcome of a command that has run a batch. -/
def endBatch (flags : Flags) (encoding : Path.Encoding) (finish : BatchEnd)
    (warnings : List Text) (batch : Batch) : Outcome :=
  let dryRun := dryRunLines flags finish.json batch.report
  let warnings := warnings ++ batch.report.warnings
  match reportLines? flags encoding finish batch.report with
  | none => ⟨batch.fs, dryRun, [], warnings, some .malformedDestination⟩
  | some lines => {
      fs := batch.fs
      printed := dryRun ++ lines
      diagnostics := reportDiagnostics flags finish batch.report
      warnings
      error? := strictError? finish batch.report }

end TreeFold.CommandLine
