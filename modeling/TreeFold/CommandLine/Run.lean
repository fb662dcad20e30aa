import TreeFold.CommandLine.Completion
import TreeFold.CommandLine.Distribute
import TreeFold.CommandLine.Flatten
import TreeFold.CommandLine.Init
import TreeFold.CommandLine.Inspect
import TreeFold.CommandLine.Tree

/-!
# Running a command line

What a command line asks for is done on a file system, as seen from an environment. The bytes of
paths are given by an encoding, and scripts for shells by a generator.
-/

namespace TreeFold.CommandLine

/-- Run a command. -/
def Invocation.run (invocation : Invocation) (environment : Environment) (fs : FileSystem)
    (encoding : Path.Encoding := .utf8) (scripts : Shell → List Text := noCompletions) :
    Outcome :=
  let flags := invocation.flags
  match invocation.command with
  | .flatten command => command.run flags environment fs encoding
  | .distribute command => command.run flags environment fs encoding
  | .strip file => runStrip file environment fs
  | .segments command => command.run flags environment fs
  | .tree command => command.run flags environment fs
  | .init command => command.run flags fs
  | .completions command => command.run flags fs scripts

end TreeFold.CommandLine
