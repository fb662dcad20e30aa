import TreeFold.CommandLine.Outcome

/-!
# The completions command

A script that completes command lines is printed, or written to a file in a directory. The scripts
come from a generator, as the lines of the script for each shell.
-/

namespace TreeFold.CommandLine

namespace Shell

/-- The name of a shell in messages. -/
def displayName : Shell → String
  | bash => "bash"
  | zsh => "zsh"
  | fish => "fish"
  | powerShell => "powershell"
  | elvish => "elvish"

/-- The name of the file that holds the script for a shell. -/
def scriptName : Shell → Name
  | bash => "fsp.bash".toList
  | zsh => "_fsp".toList
  | fish => "fsp.fish".toList
  | powerShell => "_fsp.ps1".toList
  | elvish => "fsp.elv".toList

end Shell

/-- Scripts that complete nothing. -/
def noCompletions : Shell → List Text
  | _ => ["# fsp".toList, "# No completions.".toList]

/-- Write the script for a shell into a directory. -/
def CompletionsCommand.write (command : CompletionsCommand) (flags : Flags) (fs : FileSystem)
    (scripts : Shell → List Text) (directory : Path) : Outcome :=
  match fs.makeDirectories directory with
  | ⟨some e, made⟩ => .failed made [] (.completionDirectory e)
  | ⟨none, made⟩ =>
    let file := directory.child command.shell.scriptName
    let script := Outcome.printedText (scripts command.shell)
    match made.writeBytes file (Text.encodeUtf8 script) with
    | .error e => .failed made [] (.completionFile e)
    | .ok written =>
      { Outcome.silent written [] with
        diagnostics :=
          if flags.quiet then [] else ["Wrote completion to ".toList ++ file.text] }

/-- Run the command. -/
def CompletionsCommand.run (command : CompletionsCommand) (flags : Flags) (fs : FileSystem)
    (scripts : Shell → List Text) : Outcome :=
  if command.stdout then .printing fs [] (scripts command.shell)
  else
    match command.outDir? with
    | none => .failed fs [] .noCompletionTarget
    | some directory =>
      if flags.dryRun then
        .saying flags fs [] ["Would write ".toList ++ command.shell.displayName.toList ++
          " completion into ".toList ++ directory.text]
      else command.write flags fs scripts directory

end TreeFold.CommandLine
