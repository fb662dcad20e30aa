import TreeFold.CommandLine.Command
import TreeFold.Glob.Parser
import TreeFold.Selection
import TreeFold.Settings.Load

/-!
# Outcomes of commands

A command prints, warns and changes the file system; at the end it has succeeded or failed. An
error is told as a chain of messages, from what was to be done to why it could not.
-/

namespace TreeFold.CommandLine

/-- Why a command failed. -/
inductive CommandError where
  | settings (error : Settings.LoadError)
  | glob (error : Glob.SyntaxError)
  | sourceList (list : Path) (error : FileSystem.Error)
  | sourceRoot (root : Path)
  | outputDirectory (directory : Path) (error : FileSystem.Error)
  | reading (file : Path) (error : FileSystem.Error)
  /-- Files failed and the command is strict about it. -/
  | failedFiles (label : String) (count : Nat)
  /-- A report with a path that is not UTF-8 was to be shown as JSON. -/
  | malformedDestination
  | settingsFileExists (file : Path)
  | settingsFile (error : FileSystem.Error)
  /-- Neither a directory nor the standard output was chosen. -/
  | noCompletionTarget
  | completionDirectory (error : FileSystem.Error)
  | completionFile (error : FileSystem.Error)
deriving DecidableEq, Repr

/-- The error as a chain of messages, the outermost first. -/
def CommandError.messages : CommandError → List Text
  | settings error => [error.message.toList]
  | glob error => error.messages
  | sourceList list error => [SourceList.failureMessage list, error.message.toList]
  | sourceRoot root => ["Source root ".toList ++ root.text ++ " is not a directory".toList]
  | outputDirectory directory error =>
    ["Failed to create output dir ".toList ++ directory.text, error.message.toList]
  | reading file error => ["reading ".toList ++ file.text, error.message.toList]
  | failedFiles label count =>
    [label.toList ++ ": ".toList ++ Nat.toDigits 10 count ++ " file(s) failed".toList]
  | malformedDestination => ["path contains invalid UTF-8 characters".toList]
  | settingsFileExists file =>
    ["Config file already exists at ".toList ++ file.text ++
      ". Use --force to overwrite.".toList]
  | settingsFile error => ["Failed to write config file".toList, error.message.toList]
  | noCompletionTarget => ["--out-dir is required unless --stdout is set".toList]
  | completionDirectory error => ["create --out-dir".toList, error.message.toList]
  | completionFile error => ["generate completion file".toList, error.message.toList]

/-- What a command did. -/
structure Outcome where
  fs : FileSystem
  /-- The lines printed. -/
  printed : List Text
  /-- The lines printed as diagnostics. -/
  diagnostics : List Text
  warnings : List Text
  error? : Option CommandError

namespace Outcome

/-- A command that ends without having printed anything. -/
def silent (fs : FileSystem) (warnings : List Text) : Outcome :=
  ⟨fs, [], [], warnings, none⟩

/-- A command that fails without having printed anything. -/
def failed (fs : FileSystem) (warnings : List Text) (error : CommandError) : Outcome :=
  ⟨fs, [], [], warnings, some error⟩

/-- A command that prints lines. -/
def printing (fs : FileSystem) (warnings : List Text) (lines : List Text) : Outcome :=
  ⟨fs, lines, [], warnings, none⟩

/-- A command that prints lines unless it is to be quiet. -/
def saying (flags : Flags) (fs : FileSystem) (warnings : List Text) (lines : List Text) :
    Outcome :=
  printing fs warnings (if flags.quiet then [] else lines)

/-- Lines as they are printed. -/
def printedText (lines : List Text) : Text :=
  lines.flatMap (· ++ ['\n'])

/-- What went to the standard output. -/
def stdout (outcome : Outcome) : Text :=
  printedText outcome.printed

/-- What went to the standard error. -/
def stderr (outcome : Outcome) : Text :=
  printedText outcome.diagnostics

end Outcome

/-- The directory that settings are loaded for. -/
def here : Path := ⟨['.']⟩

/-- Go on with the settings in force, when they can be loaded. -/
def withSettings (fs : FileSystem) (environment : Environment) (next : Settings → Outcome) :
    Outcome :=
  match Settings.load fs environment here with
  | .error e => .failed fs [] (.settings e)
  | .ok settings => next settings

end TreeFold.CommandLine
