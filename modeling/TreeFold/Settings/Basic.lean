import TreeFold.Alias
import TreeFold.Flatten

/-!
# Settings

What a user may configure, with the values in force when nothing is configured, and the written
form of settings as a TOML file.
-/

namespace TreeFold

/-- Settings for flattening. -/
structure FlattenSettings where
  outputDir : Path
  /-- Globs relative to the root; none takes every file. -/
  includeGlobs : List Text
  collision : CollisionPolicy
  stripComments : Bool
  respectIgnoreFiles : Bool

/-- Settings for distribution. -/
structure DistributeSettings where
  generatedDir : Path
  targetDir : Path
  respectIgnoreFiles : Bool
  aliases : List AliasRule

/-- Settings for tree listings. -/
structure TreeSettings where
  maxDepth? : Option Nat

/-- All settings. -/
structure Settings where
  /-- Globs that prune every walk. -/
  ignoreGlobs : List Text
  flatten : FlattenSettings
  distribute : DistributeSettings
  tree : TreeSettings

namespace Settings

/-- The globs ignored when none are configured. -/
def defaultIgnoreGlobs : List Text :=
  ["**/node_modules", "**/.git", "**/target", "**/dist", "**/build", "**/__pycache__", "**/*.pyc",
    "**/.DS_Store", "**/Thumbs.db"].map String.toList

/-- The settings in force when nothing is configured. -/
def defaults : Settings where
  ignoreGlobs := defaultIgnoreGlobs
  flatten := ⟨.ofString "flatten", [], .skipExisting, true, true⟩
  distribute := ⟨.ofString "generated", .ofString "backend", false, AliasRule.defaults⟩
  tree := ⟨none⟩

/-- A character of a quoted TOML string. -/
def quoteChar (c : Char) : Text :=
  match c with
  | '"' => ['\\', '"']
  | '\\' => ['\\', '\\']
  | '\n' => ['\\', 'n']
  | '\t' => ['\\', 't']
  | '\r' => ['\\', 'r']
  | _ => [c]

/-- A text as a TOML string. -/
def quote (text : Text) : Text :=
  '"' :: text.flatMap quoteChar ++ ['"']

/-- A line that sets a key. -/
def keyLine (key : String) (value : Text) : Text :=
  key.toList ++ " = ".toList ++ value ++ ['\n']

/-- A truth value in TOML. -/
def booleanText (b : Bool) : Text :=
  if b then "true".toList else "false".toList

/-- A list of strings in TOML, one item a line. -/
def listText (items : List Text) : Text :=
  match items with
  | [] => "[]".toList
  | _ =>
      "[\n".toList ++ items.flatMap (fun item => "    ".toList ++ quote item ++ [',', '\n']) ++
        [']']

/-- An alias rule as an entry of an array of tables. -/
def aliasText (rule : AliasRule) : Text :=
  "\n[[distribute.aliases]]\n".toList ++ keyLine "prefix" (quote rule.marker) ++
    keyLine "replacement" (quote rule.replacement)

/-- The settings as a TOML file. -/
def toToml (settings : Settings) : Text :=
  keyLine "ignore_patterns" (listText settings.ignoreGlobs) ++
  "\n[flatten]\n".toList ++
  keyLine "output_dir" (quote settings.flatten.outputDir.text) ++
  keyLine "include" (listText settings.flatten.includeGlobs) ++
  keyLine "collision" (quote settings.flatten.collision.label.toList) ++
  keyLine "strip_comments" (booleanText settings.flatten.stripComments) ++
  keyLine "respect_gitignore" (booleanText settings.flatten.respectIgnoreFiles) ++
  "\n[distribute]\n".toList ++
  keyLine "generated_dir" (quote settings.distribute.generatedDir.text) ++
  keyLine "target_dir" (quote settings.distribute.targetDir.text) ++
  keyLine "respect_gitignore" (booleanText settings.distribute.respectIgnoreFiles) ++
  settings.distribute.aliases.flatMap aliasText ++
  "\n[tree]\n".toList ++
  match settings.tree.maxDepth? with
  | some depth => keyLine "max_depth" (toString depth).toList
  | none => []

end Settings

end TreeFold
