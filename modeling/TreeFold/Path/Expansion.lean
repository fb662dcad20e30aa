import TreeFold.Environment
import TreeFold.Path
import TreeFold.Text.Word

/-!
# Expansion of paths

A path that a user gives may name environment variables, as `$NAME` or `${NAME}`, the
latter with a default behind `:-`, and may start at the home directory with `~`. Values are not
expanded again. Two dollar signs stand for one. A variable that is not set and has no default
leaves the whole path as it was written.
-/

namespace TreeFold.Path

open Text

/-- A character of a variable's name. -/
def isVariableChar (c : Char) : Bool :=
  isAlphanumeric c || c = '_'

/-- The parts before and after the first occurrence of `mark`. -/
def cutAtMark? (mark : Text) : Text → Option (Text × Text)
  | [] => none
  | c :: rest =>
    match dropStart? mark (c :: rest) with
    | some after => some ([], after)
    | none => (cutAtMark? mark rest).map fun (before, after) => (c :: before, after)

/-- The name and the default between braces. A default needs a name before it. -/
def splitDefault (inside : Text) : Text × Option Text :=
  match cutAtMark? [':', '-'] inside with
  | some (c :: name, fallback) => (c :: name, some fallback)
  | _ => (inside, none)

/-- Expand the variables of a text, with fuel for one step each; the error is the name of a
variable that is not set. The text expanded so far comes last first. -/
def expandVariables (environment : Environment) (expanded : Text) :
    (fuel : Nat) → Text → Except Text Text
  | fuel + 1, '$' :: '\x7b' :: rest =>
    match cutAt? '\x7d' rest with
    | none => expandVariables environment ('\x7b' :: '$' :: expanded) fuel rest
    | some (inside, after) =>
      let (name, fallback?) := splitDefault inside
      match (environment.get? name).or fallback? with
      | some value => expandVariables environment (value.reverse ++ expanded) fuel after
      | none => .error name
  | fuel + 1, '$' :: '$' :: rest => expandVariables environment ('$' :: expanded) fuel rest
  | fuel + 1, '$' :: rest =>
    match rest.takeWhile isVariableChar with
    | [] => expandVariables environment ('$' :: expanded) fuel rest
    | name =>
      match environment.get? name with
      | some value =>
        expandVariables environment (value.reverse ++ expanded) fuel
          (rest.dropWhile isVariableChar)
      | none => .error name
  | fuel + 1, c :: rest => expandVariables environment (c :: expanded) fuel rest
  | _, _ => .ok expanded.reverse

/-- Expand a tilde that stands alone or before a slash. -/
def expandTilde (environment : Environment) (text : Text) : Text :=
  match text, environment.home? with
  | ['~'], some home => home
  | '~' :: '/' :: rest, some home => home ++ '/' :: rest
  | _, _ => text

/-- The wording for a variable that is not set. -/
def unsetMessage (path : Path) (name : Text) : Text :=
  "could not expand ".toList ++ path.text ++ ": error looking key '".toList ++ name ++
    "' up: environment variable not found".toList

/-- The expanded path, or the warning for which it stays as it is. A tilde that comes from the
value of a variable is not expanded. -/
def expand? (environment : Environment) (path : Path) : Except Text Path :=
  match expandVariables environment [] path.text.length path.text with
  | .error name => .error (unsetMessage path name)
  | .ok text =>
    if text.head? = some '~' && path.text.head? ≠ some '~' then .ok ⟨text⟩
    else .ok ⟨expandTilde environment text⟩

/-- The expanded path with the warnings on the way. -/
def expand (environment : Environment) (path : Path) : Path × List Text :=
  match path.expand? environment with
  | .ok expanded => (expanded, [])
  | .error warning => (path, [warning])

end TreeFold.Path
