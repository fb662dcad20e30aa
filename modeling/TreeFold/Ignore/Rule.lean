import TreeFold.Glob.Parser
import TreeFold.Text.Blank

/-!
# Rules of ignore files

An ignore file holds one rule a line. A rule without a slash matches a name at any depth, one with
a slash is matched from the directory of the file; `!` takes a path back in, and a slash at the
end restricts the rule to directories. Of the rules that match a path the last one decides.
-/

namespace TreeFold.Ignore

open Text

/-- What rules say about a path. -/
inductive Verdict where
  | silent
  | ignored
  | kept
deriving DecidableEq, Repr

/-- The first verdict that is not silent. -/
def Verdict.orElse (a b : Verdict) : Verdict :=
  match a with
  | silent => b
  | _ => a

/-- A line of an ignore file. -/
structure Rule where
  pattern : Glob.Pattern
  directoryOnly : Bool
  keep : Bool
deriving Repr

/-- Remove a slash at the end, with a backslash in front of it; the flag tells of the slash. -/
def dropFinalSlash (line : Text) : Text × Bool :=
  match line.reverse with
  | '/' :: '\\' :: before => (before.reverse, true)
  | '/' :: before => (before.reverse, true)
  | _ => (line, false)

/-- The glob that a rule is matched with. A rule without a slash matches in every directory, and
a rule for all that is below a directory does not match the directory itself. -/
def ruleGlob (anchored : Bool) (body : Text) : Text :=
  let anywhere := !anchored && !body.contains '/' && body ≠ ['*', '*']
  let glob := if anywhere then '*' :: '*' :: '/' :: body else body
  match glob.reverse with
  | '*' :: '*' :: '/' :: _ => glob ++ ['/', '*']
  | _ => glob

/-- The parts of a line: whether it takes a path back in, whether it is anchored, and its glob. -/
def splitLine : Text → Bool × Bool × Text
  | '\\' :: '!' :: rest => (false, false, '!' :: rest)
  | '\\' :: '#' :: rest => (false, false, '#' :: rest)
  | '!' :: '/' :: rest => (true, true, rest)
  | '!' :: rest => (true, false, rest)
  | '/' :: rest => (false, true, rest)
  | line => (false, false, line)

/-- A line without the blanks at its end, unless the last one is escaped. -/
def trimLine (line : Text) : Text :=
  match line.reverse with
  | ' ' :: '\\' :: _ => line
  | _ => trimEnd line

/-- The rule of a line. Comments, blank lines and lines that are no glob have none. -/
def Rule.ofLine? (line : Text) : Option Rule :=
  if line.head? = some '#' then none
  else
    match trimLine line with
    | [] => none
    | trimmed =>
      let (keep, anchored, body) := splitLine trimmed
      let (body, directoryOnly) := dropFinalSlash body
      match Glob.Pattern.parseIgnoreLine (ruleGlob anchored body) with
      | .ok pattern => some ⟨pattern, directoryOnly, keep⟩
      | .error _ => none

/-- The rules of an ignore file, with the directory that they are matched from. -/
structure RuleSet where
  base : Text
  rules : List Rule
deriving Repr

/-- A path without a leading step to the current directory. -/
def dropCurrent (path : Text) : Text :=
  (dropStart? ['.', '/'] path).getD path

/-- A path without a leading slash. -/
def dropSlash (path : Text) : Text :=
  (dropStart? ['/'] path).getD path

/-- The path as the rules of a directory see it: relative to the directory where that is a start
of the path. A path of one name stays as it is. -/
def RuleSet.relative (set : RuleSet) (path : Text) : Text :=
  let path := dropCurrent path
  if (Path.mk set.base).same ⟨['.']⟩ || !path.contains '/' then path
  else
    match dropStart? set.base path with
    | some rest => dropSlash rest
    | none => path

/-- What the rules say: the last rule that matches decides. -/
def RuleSet.verdict (set : RuleSet) (path : Text) (isDirectory : Bool) : Verdict :=
  if set.rules.isEmpty then .silent
  else
    let relative := encodeUtf8 (set.relative path)
    match set.rules.reverse.find? fun rule =>
        rule.pattern.matchesBytes relative && (!rule.directoryOnly || isDirectory) with
    | none => .silent
    | some rule => if rule.keep then .kept else .ignored

/-- The lines of a file as bytes, ended by line feeds; a carriage return before one goes too. -/
def byteLines (bytes : List UInt8) : List (List UInt8) :=
  let parts := bytes.splitOn 10
  let ended := parts.dropLast.map fun line =>
    if line.getLast? = some 13 then line.dropLast else line
  match parts.getLast? with
  | none | some [] => ended
  | some last => ended ++ [last]

/-- The readable lines at the start of a file; a byte order mark before them does not count. -/
def readableLines (bytes : List UInt8) : List Text :=
  match ((byteLines bytes).map decodeUtf8?).takeWhile Option.isSome |>.map (·.getD []) with
  | [] => []
  | first :: rest => first.dropWhile (· = '\ufeff') :: rest

/-- The rules of an ignore file for the directory `base`. -/
def RuleSet.ofBytes (base : Text) (bytes : List UInt8) : RuleSet :=
  ⟨dropCurrent base, (readableLines bytes).filterMap Rule.ofLine?⟩

end TreeFold.Ignore
