import TreeFold.Settings.Basic
import TreeFold.Value.Basic

/-!
# Settings from data values

Every setting has a kind, and a value of another kind is converted where that makes sense: numbers
and words stand for truth values, numbers and truth values have a text. A group of settings is a
table, or an array with its members in order; what is left out keeps its default, and unknown
keys do not count.
-/

namespace TreeFold.Settings

/-- A text in lower case. -/
def lower (text : Text) : Text := text.map Char.toLower

/-- Whether a text is one of the words. -/
def isOneOf (text : Text) (words : List String) : Bool :=
  words.any fun word => word.toList = text

/-- The text of a value. -/
def textOf? : Value → Option Text
  | .string text => some text
  | .boolean b => some (booleanText b)
  | .integer n => some (Number.integerText n)
  | .float x => some x.text
  | _ => none

/-- The truth value of a value. -/
def booleanOf? : Value → Option Bool
  | .boolean b => some b
  | .integer n => some (n ≠ 0)
  | .float x => some x.isNonzero
  | .string text =>
    let word := lower text
    if isOneOf word ["1", "true", "on", "yes"] then some true
    else if isOneOf word ["0", "false", "off", "no"] then some false
    else none
  | _ => none

/-- The natural number of a value. -/
def naturalOf? : Value → Option Nat
  | .boolean b => some b.toNat
  | .integer n => if 0 ≤ n then some n.toNat else none
  | .float x => some x.toUnsigned
  | .string text =>
    let word := lower text
    if isOneOf word ["true", "on", "yes"] then some 1
    else if isOneOf word ["false", "off", "no"] then some 0
    else Number.parseUnsigned? text
  | _ => none

/-- The members of an array. -/
def listOf? {α : Type} (item? : Value → Option α) : Value → Option (List α)
  | .array items => items.mapM item?
  | _ => none

/-- A value that may be null. -/
def optional? {α : Type} (some? : Value → Option α) : Value → Option (Option α)
  | .null => some none
  | value => (some? value).map some

/-- The policy of a value: its name, or a table with the name as only key. -/
def policyOf? : Value → Option CollisionPolicy
  | .string text => CollisionPolicy.ofLabel? (String.ofList text)
  | .table [(key, _)] => CollisionPolicy.ofLabel? (String.ofList key)
  | _ => none

/-- The member of a group by its key, or by its place in an array. -/
def member? (value : Value) (key : String) (place : Nat) : Option Value :=
  match value with
  | .table fields => fields.lookup key.toList
  | .array items => items[place]?
  | _ => none

/-- Whether a value can be a group of settings. -/
def isGroup : Value → Bool
  | .table _ | .array _ => true
  | _ => false

/-- A member of a group, with its default when it is left out. -/
def memberOr {α : Type} (group : Value) (key : String) (place : Nat) (absent : α)
    (of? : Value → Option α) : Option α :=
  match member? group key place with
  | none => some absent
  | some value => of? value

/-- The alias rule of a value; both members are needed. -/
def aliasOf? (value : Value) : Option AliasRule := do
  return ⟨← textOf? (← member? value "prefix" 0), ← textOf? (← member? value "replacement" 1)⟩

/-- The path of a value. -/
def pathOf? (value : Value) : Option Path :=
  (textOf? value).map Path.mk

/-- The settings for flattening in a value. -/
def flattenOf? (value : Value) : Option FlattenSettings := do
  let d := defaults.flatten
  if !isGroup value then none
  return {
    outputDir := ← memberOr value "output_dir" 0 d.outputDir pathOf?
    includeGlobs := ← memberOr value "include" 1 d.includeGlobs (listOf? textOf?)
    collision := ← memberOr value "collision" 2 d.collision policyOf?
    stripComments := ← memberOr value "strip_comments" 3 d.stripComments booleanOf?
    respectIgnoreFiles := ← memberOr value "respect_gitignore" 4 d.respectIgnoreFiles booleanOf? }

/-- The settings for distribution in a value. -/
def distributeOf? (value : Value) : Option DistributeSettings := do
  let d := defaults.distribute
  if !isGroup value then none
  return {
    generatedDir := ← memberOr value "generated_dir" 0 d.generatedDir pathOf?
    targetDir := ← memberOr value "target_dir" 1 d.targetDir pathOf?
    respectIgnoreFiles := ← memberOr value "respect_gitignore" 2 d.respectIgnoreFiles booleanOf?
    aliases := ← memberOr value "aliases" 3 d.aliases (listOf? aliasOf?) }

/-- The settings for tree listings in a value. -/
def treeOf? (value : Value) : Option TreeSettings := do
  if !isGroup value then none
  return { maxDepth? := ← memberOr value "max_depth" 0 none (optional? naturalOf?) }

/-- The settings in a value. -/
def ofValue? (value : Value) : Option Settings := do
  let d := defaults
  if !isGroup value then none
  return {
    ignoreGlobs := ← memberOr value "ignore_patterns" 0 d.ignoreGlobs (listOf? textOf?)
    flatten := ← memberOr value "flatten" 1 d.flatten flattenOf?
    distribute := ← memberOr value "distribute" 2 d.distribute distributeOf?
    tree := ← memberOr value "tree" 3 d.tree treeOf? }

end TreeFold.Settings
