import TreeFold.CommandLine.Summary
import TreeFold.Path.Expansion

/-!
# The flatten command

The sources are selected below a root, those in the output directory are left out, and the rest
are flattened. Entries of a list that are no files are failures of the batch.
-/

namespace TreeFold.CommandLine

/-- The walker that the settings and options ask for. -/
def FlattenCommand.walker (command : FlattenCommand) (settings : Settings) :
    Except Glob.SyntaxError Walker := do
  let ignored ← Glob.Set.parse (settings.ignoreGlobs ++ command.ignoreGlobs)
  let taken ← Glob.Set.parse
    (if command.includeGlobs = [] then settings.flatten.includeGlobs else command.includeGlobs)
  return { Walker.ignoring ignored with
    includeGlobs? := if taken.patterns.isEmpty then none else some taken
    respectIgnoreFiles := settings.flatten.respectIgnoreFiles }

/-- Where the command takes its sources from, with the warnings on the way. -/
def FlattenCommand.selection (command : FlattenCommand) (environment : Environment) :
    Selection × List Text :=
  match command.fromList?, command.directory? with
  | some list, _ =>
    let (expanded, warnings) := list.expand environment
    (.listed expanded, warnings)
  | none, some name => (.named name, [])
  | none, none => (.root, [])

/-- What is said when no directory has the name asked for. -/
def noneNamedLine (name : Name) (root : Path) : Text :=
  Colour.red.paint ['✗'] ++ " No directory named '".toList ++ name ++ "' found in ".toList ++
    root.text

/-- The outcome of a command that has nothing selected. -/
def unselected (flags : Flags) (fs : FileSystem) (warnings : List Text) :
    SelectionError → Outcome
  | .notDirectory root => .failed fs warnings (.sourceRoot root)
  | .unreadableList list e => .failed fs warnings (.sourceList list e)
  | .noneNamed name root => .saying flags fs warnings [noneNamedLine name root]

/-- Make a directory and all that lead to it, unless nothing is to be changed. -/
def makeUnlessDry (flags : Flags) (fs : FileSystem) (directory : Path) : FileSystem.Change :=
  if flags.dryRun then ⟨none, fs⟩ else fs.makeDirectories directory

/-- Flatten what has been selected. -/
def flattenSelected (options : Flatten.Options) (fs : FileSystem) (selected : Selected) : Batch :=
  Flatten.withMissing
    (Flatten.files options fs (Selection.outside fs.workingDir options.outDir selected.sources))
    selected.missing

/-- Run the command with the settings in force. -/
def FlattenCommand.runWith (command : FlattenCommand) (flags : Flags)
    (environment : Environment) (fs : FileSystem) (encoding : Path.Encoding)
    (settings : Settings) : Outcome :=
  let (root, rootWarnings) := command.root.expand environment
  let (outDir, outWarnings) :=
    (command.out?.getD settings.flatten.outputDir).expand environment
  let (base, baseWarnings) :=
    (command.base?.map (·.expand environment)).getD (root, [])
  let warnings := rootWarnings ++ outWarnings ++ baseWarnings
  match command.walker settings with
  | .error e => .failed fs warnings (.glob e)
  | .ok walker =>
    let (selection, listWarnings) := command.selection environment
    let warnings := warnings ++ listWarnings
    match selection.select walker fs root with
    | .error e => unselected flags fs warnings e
    | .ok selected =>
      match makeUnlessDry flags fs outDir with
      | ⟨some e, made⟩ => .failed made warnings (.outputDirectory outDir e)
      | ⟨none, made⟩ =>
        let options : Flatten.Options := {
          outDir
          base
          collision := command.collision?.getD settings.flatten.collision
          stripComments := settings.flatten.stripComments && !command.keepComments
          dryRun := flags.dryRun }
        endBatch flags encoding ⟨"flatten", command.json, command.strict⟩ warnings
          (flattenSelected options made selected)

/-- Run the command. -/
def FlattenCommand.run (command : FlattenCommand) (flags : Flags) (environment : Environment)
    (fs : FileSystem) (encoding : Path.Encoding) : Outcome :=
  withSettings fs environment (command.runWith flags environment fs encoding)

end TreeFold.CommandLine
