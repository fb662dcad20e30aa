import Mathlib.Data.List.Induction
import TreeFold.Proofs.Settings.Layers
import TreeFold.Settings.Load

/-!
# Variables over the file

The variables of the environment that name keys are put over the settings of the file one by one.
Afterwards a key has the value of the last variable for it, or else what the file sets. A group that
the file writes as an array is the exception: as soon as a variable names a key of the group, a
table takes the place of the array.
-/

namespace TreeFold.Settings

open Text

/-- The name of the variable for a setting, in lower case. -/
def Key.variableName (key : Key) : Text :=
  key.names.foldl (fun text name => text ++ "__".toList ++ name) "flatsplit".toList

/-- The variables for a setting. They are known in any case. -/
def Key.matching (key : Key) (bindings : List (Text × Text)) : List (Text × Text) :=
  bindings.filter fun binding => lower binding.1 = key.variableName

/-- Some variable sets a key of the group. -/
def GroupIsSet (group : Text) (bindings : List (Text × Text)) : Prop :=
  ∃ key : Key, key.group = group ∧ key.matching bindings ≠ []

instance (group : Text) (bindings : List (Text × Text)) : Decidable (GroupIsSet group bindings) :=
  decidable_of_iff (∃ key ∈ Key.all, key.group = group ∧ key.matching bindings ≠ []) <| by
    simp [GroupIsSet, Key.mem_all]

/-- Whether a variable is one for settings, in any case. -/
def isForSettings (binding : Text × Text) : Bool :=
  (dropStart? variableStart (lower binding.1)).isSome

/-- The variables for settings all name keys. -/
def NameKeys (bindings : List (Text × Text)) : Prop :=
  ∀ binding ∈ bindings, isForSettings binding = true →
    ∃ key : Key, lower binding.1 = key.variableName

theorem nameKeys_singleton {binding : Text × Text} (key : Key)
    (h : lower binding.1 = key.variableName) : NameKeys [binding] := by
  intro other hother _
  rw [List.mem_singleton.mp hother]
  exact ⟨key, h⟩

/-- What the last variable for a setting sets. -/
def Key.override? (key : Key) (bindings : List (Text × Text)) : Option Value :=
  (key.matching bindings).getLast?.map (variableValue ·.2)

/-- What the file sets for a key. An array with the group of the key counts for nothing when a
variable sets a key of the group. -/
def Key.inFile? (key : Key) (file : Value) (bindings : List (Text × Text)) : Option Value :=
  if GroupIsSet key.group bindings then named? key.names file else at? key.path file

variable {key : Key} {group : Text} {bindings : List (Text × Text)} {binding : Text × Text}

theorem isPlain_variableValue (text : Text) : IsPlain (variableValue text) := by
  rw [variableValue]
  split
  · trivial
  · split
    · trivial
    · split <;> trivial

theorem isSome_variableField? (binding : Text × Text) :
    (variableField? binding).isSome = isForSettings binding := by
  rw [variableField?, Option.isSome_map, isForSettings]

/-- A variable with the name of a key sets the key. -/
theorem variableField?_of_name (h : lower binding.1 = key.variableName) :
    ∃ name, variableField? binding = some (name, variableValue binding.2) ∧
      stepsOf name = key.names.map .name := by
  have hkey : ∃ rest, dropStart? variableStart key.variableName = some rest ∧
      stepsOf (dotted rest) = key.names.map .name := by
    cases key <;> exact ⟨_, rfl, by decide⟩
  obtain ⟨rest, hrest, hsteps⟩ := hkey
  exact ⟨dotted rest, by rw [variableField?, h, hrest]; rfl, hsteps⟩

/-- A variable sets one key at most. -/
theorem Key.eq_of_variableName {other : Key} (h : lower binding.1 = key.variableName)
    (hother : lower binding.1 = other.variableName) : other = key := by
  obtain ⟨name, hfield, hsteps⟩ := variableField?_of_name h
  obtain ⟨otherName, hotherField, hotherSteps⟩ := variableField?_of_name hother
  obtain ⟨rfl, -⟩ := Prod.mk.inj (Option.some.inj (hfield.symm.trans hotherField))
  have hnames : other.names = key.names :=
    (List.map_inj_right fun _ _ => Step.name.inj).mp (hotherSteps.symm.trans hsteps)
  by_contra hne
  exact Key.names_apart hne (hnames ▸ List.prefix_rfl)

section Concat

theorem Key.matching_concat (key : Key) (bindings : List (Text × Text)) (binding : Text × Text) :
    key.matching (bindings ++ [binding]) =
      key.matching bindings ++ if lower binding.1 = key.variableName then [binding] else [] := by
  rw [matching, List.filter_append]
  by_cases h : lower binding.1 = key.variableName <;> simp [matching, h]

theorem Key.override?_concat (key : Key) (bindings : List (Text × Text))
    (binding : Text × Text) :
    key.override? (bindings ++ [binding]) =
      if lower binding.1 = key.variableName then some (variableValue binding.2)
      else key.override? bindings := by
  rw [override?, matching_concat]
  by_cases h : lower binding.1 = key.variableName <;> simp [override?, h]

theorem groupIsSet_concat :
    GroupIsSet group (bindings ++ [binding]) ↔
      GroupIsSet group bindings ∨
        ∃ key : Key, key.group = group ∧ lower binding.1 = key.variableName := by
  simp only [GroupIsSet, ← exists_or, ← and_or_left, Key.matching_concat]
  refine exists_congr fun key => and_congr_right fun _ => ?_
  by_cases h : lower binding.1 = key.variableName <;> simp [h]

end Concat

/-- A value that has the variables over the file: every key is set by its last variable or else as
in the file, the groups that no variable sets are those of the file, and the others are no
arrays. -/
structure IsLayered (file : Value) (bindings : List (Text × Text)) (value : Value) : Prop where
  named : ∀ key : Key, named? key.names value =
    (key.override? bindings).or (named? key.names file)
  unset : ∀ group, ¬GroupIsSet group bindings → value.fields.lookup group = file.fields.lookup group
  noArray : ∀ group, GroupIsSet group bindings → ∀ items,
    value.fields.lookup group ≠ some (.array items)

theorem isLayered_nil (file : Value) : IsLayered file [] file where
  named _ := rfl
  unset _ _ := rfl
  noArray _ hset := by
    obtain ⟨key, -, hmatching⟩ := hset
    exact absurd rfl hmatching

variable {file value : Value}

/-- A variable for something else changes nothing. -/
theorem IsLayered.skip (h : IsLayered file bindings value)
    (hother : ∀ key : Key, lower binding.1 ≠ key.variableName) :
    IsLayered file (bindings ++ [binding]) value := by
  have hset : ∀ group, GroupIsSet group (bindings ++ [binding]) ↔ GroupIsSet group bindings := by
    intro group
    rw [groupIsSet_concat]
    refine or_iff_left ?_
    rintro ⟨key, -, hkey⟩
    exact hother key hkey
  constructor
  · intro key
    rw [Key.override?_concat, if_neg (hother key)]
    exact h.named key
  · intro group hgroup
    rw [hset] at hgroup
    exact h.unset group hgroup
  · intro group hgroup
    rw [hset] at hgroup
    exact h.noArray group hgroup

/-- A variable for a key is put over those before it. -/
theorem IsLayered.set (h : IsLayered file bindings value)
    (hkey : lower binding.1 = key.variableName) :
    IsLayered file (bindings ++ [binding])
      (putAt (variableValue binding.2) (key.names.map .name) value) := by
  have hplain := isPlain_variableValue binding.2
  obtain ⟨name, place, path, hpath, hgroup, -⟩ := key.exists_path
  have hnames : key.names = key.group :: path.map (·.1.toList) := by
    rw [Key.names, hpath, hgroup, List.map_cons]
  constructor
  · intro other
    rw [Key.override?_concat]
    by_cases hsame : lower binding.1 = other.variableName
    · obtain rfl := Key.eq_of_variableName hkey hsame
      rw [if_pos hsame, named?_putAt_self hplain, Option.some_or]
    · have hne : other ≠ key := fun heq => hsame (heq ▸ hkey)
      rw [if_neg hsame,
        named?_putAt_of_apart (Key.names_apart hne) (Key.names_apart hne.symm), h.named]
  · intro group hunset
    rw [groupIsSet_concat, not_or] at hunset
    have hne : group ≠ key.group := fun heq => hunset.2 ⟨key, heq.symm, hkey⟩
    rw [hnames, List.map_cons, lookup_putAt_name, if_neg hne]
    exact h.unset group hunset.1
  · intro group hset items
    rw [hnames, List.map_cons, lookup_putAt_name]
    by_cases hsame : group = key.group
    · rw [if_pos hsame]
      intro heq
      exact putAt_ne_array hplain _ _ items (Option.some.inj heq)
    · rw [if_neg hsame]
      apply h.noArray
      refine (groupIsSet_concat.mp hset).resolve_right ?_
      rintro ⟨other, hother, hname⟩
      rw [Key.eq_of_variableName hkey hname] at hother
      exact hsame hother.symm

/-- The layer of the environment has its variables over the file when they name keys. -/
theorem isLayered_environment (environment : Environment) (file : Value)
    (h : NameKeys environment.bindings) :
    IsLayered file environment.bindings (putLayer file (environmentLayer environment)) := by
  rw [environmentLayer]
  generalize environment.bindings = bindings at h
  induction bindings using List.reverseRecOn with
  | nil => exact isLayered_nil file
  | append_singleton bindings binding ih =>
      have hbefore := ih fun other hother => h other (List.mem_append_left _ hother)
      rw [List.filterMap_append]
      cases hsettings : isForSettings binding with
      | false =>
        rw [← isSome_variableField?, Option.isSome_eq_false_iff, Option.isNone_iff_eq_none]
          at hsettings
        rw [List.filterMap_cons_none hsettings, List.filterMap_nil, List.append_nil]
        refine hbefore.skip fun key hkey => ?_
        obtain ⟨name, hfield, -⟩ := variableField?_of_name hkey
        rw [hfield] at hsettings
        cases hsettings
      | true =>
        obtain ⟨key, hkey⟩ := h binding (by simp) hsettings
        obtain ⟨name, hfield, hsteps⟩ := variableField?_of_name hkey
        rw [List.filterMap_cons_some hfield, List.filterMap_nil, putLayer_concat, hsteps]
        exact hbefore.set hkey

/-- What stands at a key is set by its last variable or else by the file. -/
theorem IsLayered.at?_eq (h : IsLayered file bindings value)
    (hfile : ∃ fields, file = .table fields)
    (hvalue : ∃ fields, value = .table fields) (key : Key) :
    at? key.path value = (key.override? bindings).or (key.inFile? file bindings) := by
  obtain ⟨name, place, path, hpath, hgroup, hlength⟩ := key.exists_path
  have hat : ∀ root, (∃ fields, root = .table fields) →
      at? key.path root = (root.fields.lookup key.group).bind (at? path) := by
    rintro root ⟨fields, rfl⟩
    rw [hpath, hgroup]
    rfl
  by_cases hset : GroupIsSet key.group bindings
  · rw [Key.inFile?, if_pos hset, ← h.named, hat value hvalue, Key.names, hpath, List.map_cons,
      named?, ← hgroup]
    refine Option.bind_congr fun inner hinner => ?_
    apply at?_of_length_le hlength
    rintro items rfl
    exact h.noArray key.group hset items hinner
  · have hnone : key.override? bindings = none := by
      have hempty : key.matching bindings = [] := by
        by_contra hne
        exact hset ⟨key, rfl, hne⟩
      rw [Key.override?, hempty]
      rfl
    rw [Key.inFile?, if_neg hset, hnone, Option.none_or, hat value hvalue, hat file hfile,
      h.unset key.group hset]

end TreeFold.Settings
