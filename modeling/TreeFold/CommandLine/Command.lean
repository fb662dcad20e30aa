import TreeFold.Alias
import TreeFold.Flatten

/-!
# Commands

The commands of the program with their operands and options, and the flags that every command
takes.
-/

namespace TreeFold.CommandLine

/-- Flags that every command takes. -/
structure Flags where
  quiet : Bool
  noColor : Bool
  dryRun : Bool
  verbose : Bool
deriving DecidableEq, Repr

/-- Flatten a source tree. -/
structure FlattenCommand where
  root : Path
  out? : Option Path
  /-- The directory that annotations give paths relative to. -/
  base? : Option Path
  includeGlobs : List Text
  ignoreGlobs : List Text
  /-- A file that lists the sources. -/
  fromList? : Option Path
  /-- The name of the directories to take sources from. -/
  directory? : Option Name
  collision? : Option CollisionPolicy
  keepComments : Bool
  json : Bool
  strict : Bool

/-- Distribute annotated blobs. -/
structure DistributeCommand where
  generated? : Option Path
  target? : Option Path
  ignoreGlobs : List Text
  aliases : List AliasRule
  json : Bool
  strict : Bool

/-- List the segments of a blob. -/
structure SegmentsCommand where
  file : Path
  json : Bool

/-- Show the trees of directories with given names. -/
structure TreeCommand where
  names : List Name
  root : Path
  ignoreGlobs : List Text
  depth? : Option Nat

/-- Write a configuration file. -/
structure InitCommand where
  path : Path
  force : Bool

/-- The shells that completions can be made for. -/
inductive Shell where
  | bash
  | zsh
  | fish
  | powerShell
  | elvish
deriving DecidableEq, Repr

namespace Shell

/-- All shells. -/
def all : List Shell := [bash, zsh, fish, powerShell, elvish]

/-- The name of a shell on the command line. -/
def label : Shell → String
  | bash => "bash"
  | zsh => "zsh"
  | fish => "fish"
  | powerShell => "power-shell"
  | elvish => "elvish"

/-- The shell of a name. -/
def ofLabel? (label : String) : Option Shell :=
  all.find? (·.label = label)

end Shell

/-- Make completions for a shell. -/
structure CompletionsCommand where
  shell : Shell
  outDir? : Option Path
  stdout : Bool

/-- A command with its operands and options. -/
inductive Command where
  | flatten (command : FlattenCommand)
  | distribute (command : DistributeCommand)
  | strip (file : Path)
  | segments (command : SegmentsCommand)
  | tree (command : TreeCommand)
  | init (command : InitCommand)
  | completions (command : CompletionsCommand)

/-- What a command line asks for. -/
structure Invocation where
  flags : Flags
  command : Command

end TreeFold.CommandLine
