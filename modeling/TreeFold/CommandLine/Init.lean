import TreeFold.CommandLine.Outcome

/-!
# The init command

A configuration file with the default settings is written. A file that is there already is only
replaced when that is asked for.
-/

namespace TreeFold.CommandLine

/-- The name of the file written. -/
def settingsFileName : Name := "flatsplit.toml".toList

/-- Run the command. -/
def InitCommand.run (command : InitCommand) (flags : Flags) (fs : FileSystem) : Outcome :=
  let file := command.path.child settingsFileName
  let toml := Settings.defaults.toToml
  if fs.pathExists file && !command.force then .failed fs [] (.settingsFileExists file)
  else if flags.dryRun then
    .saying flags fs [] ["Would create ".toList ++ file.text ++ ':' :: '\n' :: toml]
  else
    match fs.writeBytes file (Text.encodeUtf8 toml) with
    | .error e => .failed fs [] (.settingsFile e)
    | .ok written => .saying flags written [] ["Created config file at ".toList ++ file.text]

end TreeFold.CommandLine
