import TreeFold.CommandLine.Outcome
import TreeFold.FileTree.Outline
import TreeFold.Path.Expansion
import TreeFold.Text.Quoted

/-!
# The tree command

Every directory with one of the names asked for is shown with the tree of its files, grouped by
name in the order of the request. Names that no directory has are told at the end.
-/

namespace TreeFold.CommandLine

open Text

/-- The names without repetitions, each with the directories that have it. -/
def groupByName (names : List Name) (directories : List Path) : List (Name × List Path) :=
  names.eraseDups.map fun name =>
    (name, directories.filter fun directory => directory.fileName? = some name)

/-- What a dry run says it would search. -/
def searchLines (root : Path) (names ignored : List Text) : List Text :=
  [Colour.yellow.paint "DRY RUN: Would search:".toList, "  Root: ".toList ++ root.text,
    "  Folder names: ".toList ++ quotedList names,
    "  Ignore patterns: ".toList ++ quotedList ignored]

/-- The lines that show the tree of a directory below the root. -/
def directoryLines (flags : Flags) (depth? : Option Nat) (walker : Walker) (fs : FileSystem)
    (root directory : Path) : List Text :=
  let coloured := !flags.noColor
  let tree := FileTree.ofWalk walker fs directory
  [[], boldIf coloured "In".toList ++ ' ' :: (directory.relativeOrSelf root).text ++ [':']] ++
    (tree.limited depth?).outline coloured

/-- The lines that tell the names that no directory has. -/
def missingLines (flags : Flags) (names : List Name) : List Text :=
  if names = [] then []
  else
    [[], Colour.red.paintIf (!flags.noColor) ['✗'] ++ " No folders found with names: ".toList ++
      joinWith [',', ' '] names]

/-- Run the command with the settings in force. -/
def TreeCommand.runWith (command : TreeCommand) (flags : Flags) (environment : Environment)
    (fs : FileSystem) (settings : Settings) : Outcome :=
  let (root, warnings) := command.root.expand environment
  let ignored := settings.ignoreGlobs ++ command.ignoreGlobs
  match Glob.Set.parse ignored with
  | .error e => .failed fs warnings (.glob e)
  | .ok globs =>
    if flags.dryRun then .saying flags fs warnings (searchLines root command.names ignored)
    else
      let walker := Walker.ignoring globs
      let groups := groupByName command.names (walker.directoriesNamed fs root command.names)
      let found := (groups.flatMap (·.2)).flatMap
        (directoryLines flags (command.depth?.or settings.tree.maxDepth?) walker fs root)
      let missing := (groups.filter (·.2.isEmpty)).map (·.1)
      .printing fs warnings ((if flags.quiet then [] else found) ++ missingLines flags missing)

/-- Run the command. -/
def TreeCommand.run (command : TreeCommand) (flags : Flags) (environment : Environment)
    (fs : FileSystem) : Outcome :=
  withSettings fs environment (command.runWith flags environment fs)

end TreeFold.CommandLine
