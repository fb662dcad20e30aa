import TreeFold.CommandLine.Outcome
import TreeFold.Comment
import TreeFold.Path.Expansion
import TreeFold.Segment
import TreeFold.Style
import TreeFold.Table
import TreeFold.Value.Json.Writer

/-!
# Commands that look at one file

One command prints a file without its comments, the other lists the segments of a blob. Neither
changes the file system.
-/

namespace TreeFold.CommandLine

open Value

/-- Read a file that a user named, and go on with its expanded path and text. -/
def withFile (fs : FileSystem) (environment : Environment) (file : Path)
    (next : Path → List Text → Text → Outcome) : Outcome :=
  let (path, warnings) := file.expand environment
  match fs.readText path with
  | .error e => .failed fs warnings (.reading path e)
  | .ok text => next path warnings text

/-- Print a file without its comments. -/
def runStrip (file : Path) (environment : Environment) (fs : FileSystem) : Outcome :=
  withFile fs environment file fun _ warnings text =>
    .printing fs warnings [Comment.strip text]

/-- A segment as fields of JSON. -/
def segmentFields (segment : Segment) : List (String × Text) :=
  [("path", Json.writeString segment.path), ("annotation", Json.writeString segment.raw),
    ("lines", Json.writeCount segment.lineCount), ("bytes", Json.writeCount segment.byteLength)]

/-- Segments as a table. -/
def segmentTable (segments : List Segment) : Table where
  header := ["path".toList, "annotation".toList, "lines".toList, "bytes".toList]
  rows := segments.map fun segment =>
    [segment.path, segment.raw, Nat.toDigits 10 segment.lineCount,
      Nat.toDigits 10 segment.byteLength]

/-- The lines that show segments as a table with their number. -/
def segmentLines (flags : Flags) (segments : List Segment) : List Text :=
  let count := Nat.toDigits 10 segments.length ++ " segment(s)".toList
  (segmentTable segments).render ::
    (if flags.quiet then [] else [Colour.green.paintIf (!flags.noColor) count])

/-- Run the command with the settings in force. -/
def SegmentsCommand.runWith (command : SegmentsCommand) (flags : Flags)
    (environment : Environment) (fs : FileSystem) (settings : Settings) : Outcome :=
  withFile fs environment command.file fun path warnings text =>
    let segments := Segment.extract settings.distribute.aliases text
    if command.json then
      .printing fs warnings [Json.writeSpreadObjects (segments.map segmentFields)]
    else if segments = [] then
      .saying flags fs warnings ["No annotated segments in ".toList ++ path.text]
    else .printing fs warnings (segmentLines flags segments)

/-- Run the command. -/
def SegmentsCommand.run (command : SegmentsCommand) (flags : Flags) (environment : Environment)
    (fs : FileSystem) : Outcome :=
  withSettings fs environment (command.runWith flags environment fs)

end TreeFold.CommandLine
