import TreeFold.Text.Basic

/-!
# Alias rules

An alias rule replaces the start of a path: `@/models` becomes `src/models`. Of a list of rules
the first that applies is used.
-/

namespace TreeFold

/-- A rule that replaces a leading `marker` by `replacement`. -/
structure AliasRule where
  marker : Text
  replacement : Text
deriving DecidableEq, Repr

namespace AliasRule

/-- The path with its start replaced, when it begins with the rule's marker. -/
def expand? (rule : AliasRule) (path : Text) : Option Text :=
  (Text.dropStart? rule.marker path).map (rule.replacement ++ ·)

/-- The rules in force when none are configured. -/
def defaults : List AliasRule :=
  [⟨"@/".toList, "src/".toList⟩]

/-- The path as the first rule that applies expands it, and itself when none does. -/
def normalize (rules : List AliasRule) (path : Text) : Text :=
  (rules.findSome? (·.expand? path)).getD path

/-- Read a rule written `FROM=TO`; `FROM` must not be empty. -/
def ofFlag? (flag : Text) : Option AliasRule :=
  match Text.cutAt? '=' flag with
  | some (marker, replacement) => if marker.isEmpty then none else some ⟨marker, replacement⟩
  | none => none

/-- The complaint about a flag that is no rule. -/
def flagMessage (flag : Text) : Text :=
  "expected FROM=TO, got '".toList ++ flag ++ ['\'']

end AliasRule

end TreeFold
