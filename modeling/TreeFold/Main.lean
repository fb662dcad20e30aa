import TreeFold.CommandLine.Parser
import TreeFold.CommandLine.Run

/-!
# The program

The command line runs on a picture of the file system: the working directory with all below it,
the places that arguments and settings name, and the ignore files in the directories above. What
the command changed in the picture is then written to the disk.
-/

namespace TreeFold.Program

open CommandLine

/-- What the disk shows of a location. -/
def onDisk (location : Location) : String :=
  String.ofList (Path.ofLocation location).text

/-- The location of an absolute path of the disk. -/
def locationOf (path : String) : Location :=
  ((Path.ofString path).lexicalLocation? []).getD []

/-- The locations on the way from the root to a location. -/
def above (location : Location) : List Location :=
  (List.range location.length).map location.take

/-- Read a location and all below it. A link is kept with the place it leads to, and a link that
leads nowhere is left out. -/
partial def readTree (location : Location) : IO (List (Location × Entry)) := do
  let path := (← IO.currentDir) / onDisk location
  try
    match (← path.symlinkMetadata).type with
    | .dir =>
      let names := (← path.readDir).toList.map fun found => found.fileName.toList
      let below ← names.mapM fun name => readTree (location ++ [name])
      return (location, .directory) :: below.flatten
    | .symlink =>
      let target ← IO.FS.realPath path
      return [(location, .link (.ofString target.toString))]
    | .file => return [(location, .file (← IO.FS.readBinFile path).toList)]
    | .other => return []
  catch _ => return []

/-- Read a directory without what is below it, except for its ignore files. -/
def readAbove (location : Location) : IO (List (Location × Entry)) := do
  let files ← [".gitignore", ".ignore"].mapM fun name => readTree (location ++ [name.toList])
  let repository := location ++ [".git".toList]
  let marker ←
    if ← ((← IO.currentDir) / onDisk repository).pathExists then
      pure [(repository, Entry.directory)]
    else pure []
  return (location, .directory) :: marker ++ files.flatten

/-- The picture of some places, seen from the working directory. A place below another one comes
with it. -/
def readPlaces (workingDir : Location) (places : List Location) : IO FileSystem := do
  let tops := places.eraseDups.filter fun place =>
    !places.any fun other => other ≠ place && other.isPrefixOf place
  let between := (tops.flatMap above).eraseDups.filter (· ≠ [])
  let directories ← between.mapM readAbove
  let trees ← tops.mapM readTree
  return ⟨directories.flatten ++ trees.flatten, workingDir⟩

/-- The variables of the environment. -/
def readEnvironment : IO Environment := do
  let bytes ← IO.FS.readBinFile "/proc/self/environ"
  let entries := (bytes.toList.splitOn 0).map Text.decodeLossy
  return ⟨entries.filterMap (Text.cutAt? '=')⟩

/-- The place that a path names before links are followed. -/
def placeOf? (environment : Environment) (workingDir : Location) (path : Path) :
    Option Location :=
  (path.expand environment).1.lexicalLocation? workingDir

/-- The paths that an argument may name: itself, and what stands behind an equals sign. -/
def pathsOf (argument : Text) : List Path :=
  ⟨argument⟩ :: ((Text.cutAt? '=' argument).map fun (_, value) => Path.mk value).toList

/-- The paths that settings name. -/
def pathsOfSettings : Except Settings.LoadError Settings → List Path
  | .ok settings =>
    [settings.flatten.outputDir, settings.distribute.generatedDir, settings.distribute.targetDir]
  | .error _ => []

/-- The picture of all that a command line can name. -/
def readPicture (environment : Environment) (arguments : List Text) : IO FileSystem := do
  let workingDir := locationOf (← IO.currentDir).toString
  let known ← readPlaces workingDir [workingDir]
  let paths :=
    arguments.flatMap pathsOf ++ pathsOfSettings (Settings.load known environment here)
  let outside := (paths.filterMap (placeOf? environment workingDir)).filter fun place =>
    !workingDir.isPrefixOf place && !place.isPrefixOf workingDir
  if outside.isEmpty then return known
  else readPlaces workingDir (workingDir :: outside)

/-- The entries that differ from those before. Entries keep their places, new ones are at the
end. -/
def changes : (before after : List (Location × Entry)) → List (Location × Entry)
  | [], after => after
  | _ :: _, [] => []
  | old :: before, new :: after =>
    if new = old then changes before after else new :: changes before after

/-- Write a changed entry to the disk. -/
def writeEntry : Location × Entry → IO Unit
  | (location, .directory) => IO.FS.createDirAll (onDisk location)
  | (location, .file bytes) => IO.FS.writeBinFile (onDisk location) ⟨bytes.toArray⟩
  | (_, .link _) => return

/-- The wording of a refused command line. -/
def usageMessage : UsageError → String
  | .displayHelp | .displayVersion | .missingEverything => ""
  | .missingCommand => "error: a command is needed"
  | .unknownCommand => "error: unknown command"
  | .unknownArgument => "error: unexpected argument"
  | .invalidValue | .unreadableValue => "error: invalid value"
  | .unexpectedValue => "error: unexpected value for a flag"
  | .missingOperand => "error: a required argument is missing"
  | .conflict => "error: an argument cannot be used twice, or with another one"

/-- How the program is used. -/
def usageText : String :=
  "Usage: fsp [OPTIONS] <COMMAND>\n\nCommands: " ++
    String.intercalate ", " (CommandSpec.all.map (·.name))

/-- Answer a command line that is refused or asks for help. -/
def answerUsage : UsageError → IO UInt32
  | .displayHelp => do
    IO.println usageText
    return 0
  | .displayVersion => do
    IO.println "fsp 0.1.0"
    return 0
  | e => do
    IO.eprintln (usageMessage e)
    IO.eprintln usageText
    return 2

/-- An error with its causes. -/
def errorText : List Text → Text
  | [] => []
  | message :: causes =>
    "Error: ".toList ++ message ++
      (if causes = [] then [] else "\n\nCaused by:".toList) ++
      causes.flatMap ("\n    ".toList ++ ·)

/-- Print what a command said, and give its exit code. -/
def report (flags : Flags) (outcome : Outcome) : IO UInt32 := do
  if !flags.quiet then
    for warning in outcome.warnings do
      IO.eprintln (String.ofList ("WARN ".toList ++ warning))
  IO.print (String.ofList outcome.stdout)
  IO.eprint (String.ofList outcome.stderr)
  match outcome.error? with
  | none => return 0
  | some e =>
    IO.eprintln (String.ofList (errorText e.messages))
    return 1

/-- Run a command line. -/
def run (arguments : List Text) : IO UInt32 := do
  match CommandLine.parse arguments with
  | .error e => answerUsage e
  | .ok invocation =>
    let environment ← readEnvironment
    let fs ← readPicture environment arguments
    let outcome := invocation.run environment fs
    (changes fs.entries outcome.fs.entries).forM writeEntry
    report invocation.flags outcome

end TreeFold.Program

/-- Run the program. -/
def main (arguments : List String) : IO UInt32 :=
  TreeFold.Program.run (arguments.map String.toList)
