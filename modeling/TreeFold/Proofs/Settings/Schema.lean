import TreeFold.Settings.Decode

/-!
# The keys of the settings

Every setting has a key: the names that lead to it through tables, each with the place that stands
for it in an array. The settings in a value have, for every key, what stands there in the value, or
the default when nothing does.
-/

namespace TreeFold.Settings

/-- The settings, each by its key. -/
inductive Key where
  | ignoreGlobs
  | outputDir
  | includeGlobs
  | collision
  | stripComments
  | flattenIgnores
  | generatedDir
  | targetDir
  | distributeIgnores
  | aliases
  | maxDepth
deriving DecidableEq, Repr

namespace Key

/-- All keys. -/
def all : List Key :=
  [ignoreGlobs, outputDir, includeGlobs, collision, stripComments, flattenIgnores, generatedDir,
    targetDir, distributeIgnores, aliases, maxDepth]

theorem mem_all (key : Key) : key ∈ all := by
  cases key <;> decide

/-- The names that lead to a setting, each with its place in an array. -/
def path : Key → List (String × Nat)
  | ignoreGlobs => [("ignore_patterns", 0)]
  | outputDir => [("flatten", 1), ("output_dir", 0)]
  | includeGlobs => [("flatten", 1), ("include", 1)]
  | collision => [("flatten", 1), ("collision", 2)]
  | stripComments => [("flatten", 1), ("strip_comments", 3)]
  | flattenIgnores => [("flatten", 1), ("respect_gitignore", 4)]
  | generatedDir => [("distribute", 2), ("generated_dir", 0)]
  | targetDir => [("distribute", 2), ("target_dir", 1)]
  | distributeIgnores => [("distribute", 2), ("respect_gitignore", 2)]
  | aliases => [("distribute", 2), ("aliases", 3)]
  | maxDepth => [("tree", 3), ("max_depth", 0)]

/-- The names that lead to a setting. -/
def names (key : Key) : List Text :=
  key.path.map (·.1.toList)

/-- The first name that leads to a setting, which is that of its group. -/
def group (key : Key) : Text :=
  key.names.headD []

/-- A setting stands in the settings as a whole, or in one of their groups. -/
theorem exists_path (key : Key) : ∃ name place path,
    key.path = (name, place) :: path ∧ key.group = name.toList ∧ path.length ≤ 1 := by
  cases key <;> exact ⟨_, _, _, rfl, rfl, by decide⟩

/-- No key leads to a part of another one. -/
theorem names_apart {key other : Key} (h : key ≠ other) : ¬key.names <+: other.names := by
  revert h
  cases key <;> cases other <;> decide

/-- What a setting is. -/
abbrev Kind : Key → Type
  | ignoreGlobs | includeGlobs => List Text
  | outputDir | generatedDir | targetDir => Path
  | collision => CollisionPolicy
  | stripComments | flattenIgnores | distributeIgnores => Bool
  | aliases => List AliasRule
  | maxDepth => Option Nat

/-- The setting of a key. -/
def get (settings : Settings) : (key : Key) → key.Kind
  | ignoreGlobs => settings.ignoreGlobs
  | outputDir => settings.flatten.outputDir
  | includeGlobs => settings.flatten.includeGlobs
  | collision => settings.flatten.collision
  | stripComments => settings.flatten.stripComments
  | flattenIgnores => settings.flatten.respectIgnoreFiles
  | generatedDir => settings.distribute.generatedDir
  | targetDir => settings.distribute.targetDir
  | distributeIgnores => settings.distribute.respectIgnoreFiles
  | aliases => settings.distribute.aliases
  | maxDepth => settings.tree.maxDepth?

/-- The setting that a value stands for at a key. -/
def of? : (key : Key) → Value → Option key.Kind
  | ignoreGlobs | includeGlobs => listOf? textOf?
  | outputDir | generatedDir | targetDir => pathOf?
  | collision => policyOf?
  | stripComments | flattenIgnores | distributeIgnores => booleanOf?
  | aliases => listOf? aliasOf?
  | maxDepth => optional? naturalOf?

/-- The setting for what stands at a key, which is the default when nothing does. -/
def read (key : Key) : Option Value → Option key.Kind
  | none => some (key.get defaults)
  | some value => key.of? value

end Key

/-- What stands at the end of a path in a value. -/
def at? : List (String × Nat) → Value → Option Value
  | [], value => some value
  | (name, place) :: path, value => (member? value name place).bind (at? path)

@[simp]
theorem at?_single (name : String) (place : Nat) (value : Value) :
    at? [(name, place)] value = member? value name place :=
  Option.bind_fun_some _

variable {value : Value} {key : Key}

/-- What is read in a member is read in its group when the default of the member agrees. -/
theorem read_member (key : Key) {α : Type} {name : String} {place : Nat} {absent member : α}
    {of? : Value → Option α} {path : List (String × Nat)} (project : α → key.Kind)
    (habsent : project absent = key.get defaults)
    (hof : ∀ inner found, of? inner = some found →
      key.read (at? path inner) = some (project found))
    (h : memberOr value name place absent of? = some member) :
    key.read (at? ((name, place) :: path) value) = some (project member) := by
  rw [at?]
  rw [memberOr] at h
  cases hmember : member? value name place with
  | none =>
      rw [hmember] at h
      rw [Option.bind_none, Key.read, ← habsent, Option.some.inj h]
  | some inner =>
      rw [hmember] at h
      exact hof inner member h

/-- A member that is a setting is read where it stands. -/
theorem read_setting {name : String} {place : Nat} {found : key.Kind}
    (h : memberOr value name place (key.get defaults) key.of? = some found) :
    key.read (at? [(name, place)] value) = some found :=
  read_member key id rfl (fun _ _ hof => hof) h

/-- The settings for flattening have what is read at their keys. -/
theorem flattenOf?_spec {settings : FlattenSettings} (h : flattenOf? value = some settings) :
    Key.outputDir.read (at? [("output_dir", 0)] value) = some settings.outputDir ∧
      Key.includeGlobs.read (at? [("include", 1)] value) = some settings.includeGlobs ∧
      Key.collision.read (at? [("collision", 2)] value) = some settings.collision ∧
      Key.stripComments.read (at? [("strip_comments", 3)] value) = some settings.stripComments ∧
      Key.flattenIgnores.read (at? [("respect_gitignore", 4)] value) =
        some settings.respectIgnoreFiles := by
  rw [flattenOf?] at h
  split at h
  · cases h
  · simp only [Option.bind_eq_bind, Option.bind_eq_some_iff] at h
    obtain ⟨_, houtput, _, hinclude, _, hcollision, _, hstrip, _, hignores, hsettings⟩ := h
    obtain rfl := Option.some.inj hsettings
    exact ⟨read_setting houtput, read_setting hinclude, read_setting hcollision,
      read_setting hstrip, read_setting hignores⟩

/-- The settings for distribution have what is read at their keys. -/
theorem distributeOf?_spec {settings : DistributeSettings}
    (h : distributeOf? value = some settings) :
    Key.generatedDir.read (at? [("generated_dir", 0)] value) = some settings.generatedDir ∧
      Key.targetDir.read (at? [("target_dir", 1)] value) = some settings.targetDir ∧
      Key.distributeIgnores.read (at? [("respect_gitignore", 2)] value) =
        some settings.respectIgnoreFiles ∧
      Key.aliases.read (at? [("aliases", 3)] value) = some settings.aliases := by
  rw [distributeOf?] at h
  split at h
  · cases h
  · simp only [Option.bind_eq_bind, Option.bind_eq_some_iff] at h
    obtain ⟨_, hgenerated, _, htarget, _, hignores, _, haliases, hsettings⟩ := h
    obtain rfl := Option.some.inj hsettings
    exact ⟨read_setting hgenerated, read_setting htarget, read_setting hignores,
      read_setting haliases⟩

/-- The settings for tree listings have what is read at their key. -/
theorem treeOf?_spec {settings : TreeSettings} (h : treeOf? value = some settings) :
    Key.maxDepth.read (at? [("max_depth", 0)] value) = some settings.maxDepth? := by
  rw [treeOf?] at h
  split at h
  · cases h
  · simp only [Option.bind_eq_bind, Option.bind_eq_some_iff] at h
    obtain ⟨_, hdepth, hsettings⟩ := h
    obtain rfl := Option.some.inj hsettings
    exact read_setting hdepth

/-- The settings in a value have, at every key, what is read at its path. -/
theorem read_of_ofValue? {settings : Settings} (h : ofValue? value = some settings) (key : Key) :
    key.read (at? key.path value) = some (key.get settings) := by
  rw [ofValue?] at h
  split at h
  · cases h
  · simp only [Option.bind_eq_bind, Option.bind_eq_some_iff] at h
    obtain ⟨_, hignore, _, hflatten, _, hdistribute, _, htree, hsettings⟩ := h
    obtain rfl := Option.some.inj hsettings
    cases key with
    | ignoreGlobs => exact read_setting hignore
    | outputDir =>
        exact read_member .outputDir (·.outputDir) rfl
          (fun _ _ h => (flattenOf?_spec h).1) hflatten
    | includeGlobs =>
        exact read_member .includeGlobs (·.includeGlobs) rfl
          (fun _ _ h => (flattenOf?_spec h).2.1) hflatten
    | collision =>
        exact read_member .collision (·.collision) rfl
          (fun _ _ h => (flattenOf?_spec h).2.2.1) hflatten
    | stripComments =>
        exact read_member .stripComments (·.stripComments) rfl
          (fun _ _ h => (flattenOf?_spec h).2.2.2.1) hflatten
    | flattenIgnores =>
        exact read_member .flattenIgnores (·.respectIgnoreFiles) rfl
          (fun _ _ h => (flattenOf?_spec h).2.2.2.2) hflatten
    | generatedDir =>
        exact read_member .generatedDir (·.generatedDir) rfl
          (fun _ _ h => (distributeOf?_spec h).1) hdistribute
    | targetDir =>
        exact read_member .targetDir (·.targetDir) rfl
          (fun _ _ h => (distributeOf?_spec h).2.1) hdistribute
    | distributeIgnores =>
        exact read_member .distributeIgnores (·.respectIgnoreFiles) rfl
          (fun _ _ h => (distributeOf?_spec h).2.2.1) hdistribute
    | aliases =>
        exact read_member .aliases (·.aliases) rfl
          (fun _ _ h => (distributeOf?_spec h).2.2.2) hdistribute
    | maxDepth =>
        exact read_member .maxDepth (·.maxDepth?) rfl
          (fun _ _ h => treeOf?_spec h) htree

end TreeFold.Settings
