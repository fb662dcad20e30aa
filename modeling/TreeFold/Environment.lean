import TreeFold.Text.Basic

/-!
# Environment variables

The variables of the environment, with their look-up. The empty name and a name with an equals
sign name no variable.
-/

namespace TreeFold

/-- The variables of the environment. -/
structure Environment where
  bindings : List (Text × Text)
deriving Repr

namespace Environment

/-- The value of a variable. -/
def get? (environment : Environment) (name : Text) : Option Text :=
  if name = [] || name.contains '=' || name.contains '\x00' then none
  else environment.bindings.lookup name

/-- The home directory, when one is set. -/
def home? (environment : Environment) : Option Text :=
  match environment.get? "HOME".toList with
  | some [] => none
  | home => home

end Environment

end TreeFold
