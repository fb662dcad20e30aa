import TreeFold.CommandLine.Spec

/-!
# Reading command lines

The arguments are read from left to right. The value of an option is complete, and checked, only
when the next option or operand comes or the arguments end; a value attached to its option is
complete at once. An unknown argument is refused before a value that waits to be checked. Behind
two dashes all arguments are operands.

The arguments of a command are complete before the program asks whether it got any.
-/

namespace TreeFold.CommandLine

/-- An option or operand that is not yet complete, with its values last first. -/
structure Pending where
  id : OptionId
  /-- What it takes, and nothing for a flag. -/
  kind? : Option ValueKind
  repeatable : Bool
  values : List Text

/-- What has been read of a command's arguments. -/
structure Reading where
  /-- The options and operands that are complete, in order; a flag has no text. -/
  given : List (OptionId × Text)
  pending? : Option Pending
  /-- Whether the next argument is the value of the pending option. -/
  awaitsValue : Bool
  operands : Nat

namespace Reading

/-- Nothing read. -/
def start : Reading := ⟨[], none, false, 0⟩

/-- Whether an option or operand has been given. -/
def has (reading : Reading) (id : OptionId) : Bool :=
  reading.given.any (·.1 = id)

/-- Complete an option or operand: it needs a value unless it is a flag, is given once unless
repeatable, and its values pass their check. -/
def complete (reading : Reading) (pending : Pending) : Except UsageError Reading :=
  if pending.id = .help then .error .displayHelp
  else if pending.id = .version then .error .displayVersion
  else if pending.kind?.isSome && pending.values.isEmpty then .error .invalidValue
  else if !pending.repeatable && reading.has pending.id then .error .conflict
  else
    let values := if pending.kind?.isSome then pending.values.reverse else [[]]
    match values.findSome? fun value => pending.kind?.bind (·.complaint? value) with
    | some complaint => .error complaint
    | none => .ok { reading with given := reading.given ++ values.map (pending.id, ·) }

/-- Complete what is pending. -/
def settle (reading : Reading) : Except UsageError Reading :=
  match reading.pending? with
  | none => .ok { reading with awaitsValue := false }
  | some pending => { reading with pending? := none, awaitsValue := false }.complete pending

/-- Take a flag, or an option with its attached value. -/
def take (reading : Reading) (option : OptionSpec) (values : List Text) :
    Except UsageError Reading := do
  (← reading.settle).complete ⟨option.id, option.kind?, option.repeatable, values⟩

/-- Take an option whose value comes next. -/
def await (reading : Reading) (option : OptionSpec) : Except UsageError Reading := do
  let settled ← reading.settle
  return { settled with
    pending? := some ⟨option.id, option.kind?, option.repeatable, []⟩
    awaitsValue := true }

/-- Take an argument as the value that is awaited. -/
def takeValue (reading : Reading) (value : Text) : Reading :=
  { reading with
    pending? := reading.pending?.map fun pending =>
      { pending with values := value :: pending.values }
    awaitsValue := false }

/-- Take an argument as an operand, when the command takes one more. -/
def takeOperand (spec : CommandSpec) (reading : Reading) (value : Text) :
    Except UsageError Reading :=
  match spec.operand? with
  | none => .error .unknownArgument
  | some operand =>
    if !operand.many && reading.operands > 0 then .error .unknownArgument
    else
      let counted := { reading with operands := reading.operands + 1 }
      match reading.pending? with
      | some ⟨.operand, kind?, repeatable, values⟩ =>
        .ok { counted with pending? := some ⟨.operand, kind?, repeatable, value :: values⟩ }
      | _ => do
        let settled ← counted.settle
        return { settled with
          pending? := some ⟨.operand, some operand.kind, operand.many, [value]⟩ }

/-- Take an option by its long name, with the text behind an equals sign. -/
def takeLong (spec : CommandSpec) (reading : Reading) (body : Text) :
    Except UsageError Reading :=
  let name := body.takeWhile (· ≠ '=')
  let attached? := (Text.cutAt? '=' body).map (·.2)
  match spec.ofLong? name with
  | none => .error .unknownArgument
  | some option =>
    match option.kind?, attached? with
    | none, none => reading.take option []
    | none, some _ => .error .unexpectedValue
    | some _, some value => reading.take option [value]
    | some _, none => reading.await option

/-- Take options by their letters. The text behind a letter that takes a value is the value. -/
def takeLetters (spec : CommandSpec) (reading : Reading) : Text → Except UsageError Reading
  | [] => .ok reading
  | letter :: rest =>
    match spec.ofShort? letter with
    | none => .error .unknownArgument
    | some option =>
      match option.kind?, rest with
      | none, _ =>
        match reading.take option [] with
        | .ok next => takeLetters spec next rest
        | .error e => .error e
      | some _, [] => reading.await option
      | some _, '=' :: value => reading.take option [value]
      | some _, value => reading.take option [value]

/-- Take an argument that stands before any two dashes. -/
def takeArgument (spec : CommandSpec) (reading : Reading) (argument : Text) :
    Except UsageError Reading :=
  match argument with
  | '-' :: '-' :: body => reading.takeLong spec body
  | '-' :: letter :: rest => reading.takeLetters spec (letter :: rest)
  | _ =>
    if reading.awaitsValue then .ok (reading.takeValue argument)
    else reading.takeOperand spec argument

/-- Take the arguments of a command. -/
def takeAll (spec : CommandSpec) : Reading → List Text → Except UsageError Reading
  | reading, [] => reading.settle
  | reading, ['-', '-'] :: rest => do
    (← rest.foldlM (takeOperand spec) reading).settle
  | reading, argument :: rest =>
    match reading.takeArgument spec argument with
    | .ok next => takeAll spec next rest
    | .error e => .error e

/-- Check what excludes each other and what is needed. -/
def check (spec : CommandSpec) (reading : Reading) : Except UsageError Reading :=
  if reading.has .fromList && reading.has .directory then .error .conflict
  else if spec.operand?.any (·.required) && !reading.has .operand then .error .missingOperand
  else .ok reading

/-- The values of an option in order. -/
def values (reading : Reading) (id : OptionId) : List Text :=
  (reading.given.filter (·.1 = id)).map (·.2)

/-- The value of an option. -/
def value? (reading : Reading) (id : OptionId) : Option Text :=
  reading.given.lookup id

/-- The path of an option. -/
def path? (reading : Reading) (id : OptionId) : Option Path :=
  (reading.value? id).map Path.mk

/-- The path of an option, and the current directory when it is not given. -/
def pathOrHere (reading : Reading) (id : OptionId) : Path :=
  (reading.path? id).getD ⟨['.']⟩

/-- The command that has been read. -/
def command? (reading : Reading) (spec : CommandSpec) : Option Command :=
  match spec.name with
  | "flatten" => some (.flatten {
      root := reading.pathOrHere .operand
      out? := reading.path? .out
      base? := reading.path? .base
      includeGlobs := reading.values .includeGlob
      ignoreGlobs := reading.values .ignoreGlob
      fromList? := reading.path? .fromList
      directory? := reading.value? .directory
      collision? :=
        (reading.value? .collision).bind fun value => CollisionPolicy.ofLabel? (String.ofList value)
      keepComments := reading.has .keepComments
      json := reading.has .json
      strict := reading.has .strict })
  | "distribute" => some (.distribute {
      generated? := reading.path? .generated
      target? := reading.path? .target
      ignoreGlobs := reading.values .ignoreGlob
      aliases := (reading.values .aliasRule).filterMap AliasRule.ofFlag?
      json := reading.has .json
      strict := reading.has .strict })
  | "strip" => (reading.path? .operand).map .strip
  | "segments" => (reading.path? .operand).map fun file => .segments ⟨file, reading.has .json⟩
  | "tree" => some (.tree {
      names := reading.values .operand
      root := reading.pathOrHere .root
      ignoreGlobs := reading.values .ignoreGlob
      depth? := (reading.value? .depth).bind Number.parseUnsigned? })
  | "init" => some (.init ⟨reading.pathOrHere .operand, reading.has .force⟩)
  | "completions" => do
    let shell ← Shell.ofLabel? (String.ofList (← reading.value? .operand))
    return .completions ⟨shell, reading.path? .outDir, reading.has .stdout⟩
  | _ => none

end Reading

/-- The flags given before or behind the command. -/
def flagsOf (program command : Reading) : Flags where
  quiet := program.has .quiet || command.has .quiet
  noColor := program.has .noColor || command.has .noColor
  dryRun := program.has .dryRun || command.has .dryRun
  verbose := program.has .verbose || command.has .verbose

/-- Read the arguments of a command. -/
def parseCommand (program : Reading) (spec : CommandSpec) (arguments : List Text) :
    Except UsageError Invocation := do
  let reading ← (← Reading.takeAll spec .start arguments).check spec
  match reading.command? spec with
  | some command => return ⟨flagsOf program reading, command⟩
  | none => throw .missingOperand

/-- The answer to a request for help about the commands named. -/
def parseHelp : List Text → UsageError
  | [] => .displayHelp
  | [word] => if CommandSpec.isCommandWord word then .displayHelp else .unknownCommand
  | _ => .unknownCommand

/-- The complaint about a word that is no command. Behind two dashes a command is refused as an
argument. -/
def refuseWord (afterDashes : Bool) (word : Text) : UsageError :=
  if afterDashes && CommandSpec.isCommandWord word then .unknownArgument else .unknownCommand

/-- Read the arguments up to the command, and then those of the command. -/
def parseFrom (program : Reading) : List Text → Except UsageError Invocation
  | [] => if program.given.isEmpty then .error .missingEverything else .error .missingCommand
  | word :: rest =>
    match CommandSpec.ofName? word, word with
    | some spec, _ => parseCommand program spec rest
    | none, ['-', '-'] =>
      match rest with
      | [] => if program.given.isEmpty then .error .missingEverything else .error .missingCommand
      | next :: _ => .error (refuseWord true next)
    | none, '-' :: _ :: _ =>
      match program.takeArgument .program word with
      | .ok next => parseFrom next rest
      | .error e => .error e
    | none, _ => if word = CommandSpec.helpWord then .error (parseHelp rest)
      else .error (refuseWord false word)

/-- Read a command line. -/
def parse (arguments : List Text) : Except UsageError Invocation :=
  parseFrom .start arguments

end TreeFold.CommandLine
