import TreeFold.CommandLine.Command
import TreeFold.Number.Text

/-!
# The options of each command

A table of the commands with the options they take, and for each value the check that it has to
pass when the option is complete.
-/

namespace TreeFold.CommandLine

/-- Why a command line is refused, or answered without running a command. -/
inductive UsageError where
  | displayHelp
  | displayVersion
  /-- No argument at all. -/
  | missingEverything
  | missingCommand
  | unknownCommand
  | unknownArgument
  /-- A value that is missing, empty or not among those possible. -/
  | invalidValue
  /-- A value that its option cannot read. -/
  | unreadableValue
  /-- A value for a flag. -/
  | unexpectedValue
  | missingOperand
  /-- An option given twice, or with one that excludes it. -/
  | conflict
deriving DecidableEq, Repr

/-- The options and operands of all commands. -/
inductive OptionId where
  | operand
  | noColor | quiet | dryRun | verbose | help | version
  | out | base | includeGlob | ignoreGlob | fromList | directory | collision | keepComments
  | json | strict
  | generated | target | aliasRule
  | root | depth
  | force
  | outDir | stdout
deriving DecidableEq, Repr

/-- What an option or operand takes. -/
inductive ValueKind where
  | text
  | path
  | count
  | policy
  | shell
  | aliasRule
deriving DecidableEq, Repr

/-- The complaint about a value. -/
def ValueKind.complaint? (kind : ValueKind) (value : Text) : Option UsageError :=
  match kind with
  | text => none
  | path => if value = [] then some .invalidValue else none
  | count => if (Number.parseUnsigned? value).isSome then none else some .unreadableValue
  | policy =>
    if (CollisionPolicy.ofLabel? (String.ofList value)).isSome then none else some .invalidValue
  | shell => if (Shell.ofLabel? (String.ofList value)).isSome then none else some .invalidValue
  | aliasRule => if (AliasRule.ofFlag? value).isSome then none else some .unreadableValue

/-- An option: a flag without a kind, or an option that takes one value. -/
structure OptionSpec where
  id : OptionId
  long : String
  short? : Option Char
  kind? : Option ValueKind
  repeatable : Bool

/-- The operand of a command. -/
structure OperandSpec where
  kind : ValueKind
  many : Bool
  required : Bool

/-- A command with what it takes. -/
structure CommandSpec where
  name : String
  options : List OptionSpec
  operand? : Option OperandSpec

namespace OptionSpec

/-- A flag. -/
def flag (id : OptionId) (long : String) (short? : Option Char) : OptionSpec :=
  ⟨id, long, short?, none, false⟩

/-- An option that is given once. -/
def single (id : OptionId) (long : String) (short? : Option Char) (kind : ValueKind) :
    OptionSpec :=
  ⟨id, long, short?, some kind, false⟩

/-- An option that may be repeated. -/
def repeated (id : OptionId) (long : String) (short? : Option Char) (kind : ValueKind) :
    OptionSpec :=
  ⟨id, long, short?, some kind, true⟩

/-- The flags of every command. -/
def shared : List OptionSpec :=
  [flag .noColor "no-color" none, flag .quiet "quiet" none, flag .dryRun "dry-run" none,
    flag .verbose "verbose" (some 'v'), flag .help "help" (some 'h')]

/-- Further globs to ignore. -/
def ignoreOption : OptionSpec := repeated .ignoreGlob "ignore" (some 'i') .text

end OptionSpec

namespace CommandSpec

open OptionSpec

/-- The program without a command. -/
def program : CommandSpec :=
  ⟨"fsp", flag .version "version" (some 'V') :: shared, none⟩

/-- The command that flattens. -/
def flatten : CommandSpec :=
  ⟨"flatten",
    [single .out "out" (some 'o') .path, single .base "base" none .path,
      repeated .includeGlob "include" none .text, ignoreOption,
      single .fromList "from-list" none .path, single .directory "dir" none .text,
      single .collision "on-collision" none .policy, flag .keepComments "keep-comments" none,
      flag .json "json" none, flag .strict "strict" none] ++ shared,
    some ⟨.path, false, false⟩⟩

/-- The command that distributes. -/
def distribute : CommandSpec :=
  ⟨"distribute",
    [single .generated "generated" (some 'g') .path, single .target "target" (some 'b') .path,
      ignoreOption, repeated .aliasRule "alias" none .aliasRule, flag .json "json" none,
      flag .strict "strict" none] ++ shared,
    none⟩

/-- The command that strips one file. -/
def strip : CommandSpec :=
  ⟨"strip", shared, some ⟨.path, false, true⟩⟩

/-- The command that lists segments. -/
def segments : CommandSpec :=
  ⟨"segments", flag .json "json" none :: shared, some ⟨.path, false, true⟩⟩

/-- The command that shows trees. -/
def tree : CommandSpec :=
  ⟨"tree",
    [single .root "root" none .path, ignoreOption, single .depth "depth" (some 'd') .count] ++
      shared,
    some ⟨.text, true, true⟩⟩

/-- The command that writes a configuration file. -/
def init : CommandSpec :=
  ⟨"init", flag .force "force" none :: shared, some ⟨.path, false, false⟩⟩

/-- The command that makes completions. -/
def completions : CommandSpec :=
  ⟨"completions", [single .outDir "out-dir" none .path, flag .stdout "stdout" none] ++ shared,
    some ⟨.shell, false, true⟩⟩

/-- All commands. -/
def all : List CommandSpec :=
  [flatten, distribute, strip, segments, tree, init, completions]

/-- The command of a name. -/
def ofName? (name : Text) : Option CommandSpec :=
  all.find? (·.name.toList = name)

/-- The word that asks for help about a command. -/
def helpWord : Text := "help".toList

/-- Whether a word names a command or asks for help. -/
def isCommandWord (word : Text) : Bool :=
  word = helpWord || (ofName? word).isSome

/-- The option of a long name. -/
def ofLong? (spec : CommandSpec) (name : Text) : Option OptionSpec :=
  spec.options.find? (·.long.toList = name)

/-- The option of a letter. -/
def ofShort? (spec : CommandSpec) (letter : Char) : Option OptionSpec :=
  spec.options.find? (·.short? = some letter)

end CommandSpec

end TreeFold.CommandLine
