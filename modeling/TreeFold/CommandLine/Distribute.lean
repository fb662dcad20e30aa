import TreeFold.CommandLine.Summary
import TreeFold.Distribute
import TreeFold.Path.Expansion

/-!
# The distribute command

The blobs are the files below a directory, or a single file. Their segments are written below the
target directory.
-/

namespace TreeFold.CommandLine

/-- The blobs at a path. -/
def DistributeCommand.blobs (command : DistributeCommand) (fs : FileSystem)
    (settings : Settings) (generated : Path) : Except Glob.SyntaxError (List Path) := do
  if fs.isFile generated then return [generated]
  let walker := { Walker.ignoring (← Glob.Set.parse command.ignoreGlobs) with
    respectIgnoreFiles := settings.distribute.respectIgnoreFiles }
  return walker.files fs generated

/-- Run the command with the settings in force. -/
def DistributeCommand.runWith (command : DistributeCommand) (flags : Flags)
    (environment : Environment) (fs : FileSystem) (encoding : Path.Encoding)
    (settings : Settings) : Outcome :=
  let (generated, generatedWarnings) :=
    (command.generated?.getD settings.distribute.generatedDir).expand environment
  let (target, targetWarnings) :=
    (command.target?.getD settings.distribute.targetDir).expand environment
  let warnings := generatedWarnings ++ targetWarnings
  if !fs.pathExists generated then
    .saying flags fs warnings ["Generated folder not found: ".toList ++ generated.text]
  else
    match command.blobs fs settings generated with
    | .error e => .failed fs warnings (.glob e)
    | .ok blobs =>
      let rules :=
        if command.aliases = [] then settings.distribute.aliases else command.aliases
      endBatch flags encoding ⟨"distribute", command.json, command.strict⟩ warnings
        (Distribute.files ⟨target, flags.dryRun⟩ rules fs blobs)

/-- Run the command. -/
def DistributeCommand.run (command : DistributeCommand) (flags : Flags)
    (environment : Environment) (fs : FileSystem) (encoding : Path.Encoding) : Outcome :=
  withSettings fs environment (command.runWith flags environment fs encoding)

end TreeFold.CommandLine
