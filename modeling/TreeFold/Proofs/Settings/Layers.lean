import TreeFold.Proofs.Settings.Schema
import TreeFold.Settings.Layers

/-!
# Values put over others

A value put where names lead is found there afterwards, and what other names lead to through tables
stays. What stands in an array on the way is gone, as a table takes its place.
-/

namespace TreeFold.Settings

/-- What names lead to through tables. -/
def named? : List Text → Value → Option Value
  | [], value => some value
  | name :: names, value => (value.fields.lookup name).bind (named? names)

/-- A value that replaces whatever it is put over, and that nothing is a part of. -/
def IsPlain : Value → Prop
  | .table _ | .array _ => False
  | _ => True

variable {value below : Value} {name : Text} {names path : List Text}

theorem lookup_setField (name other : Text) (value : Value) (fields : List (Text × Value)) :
    (Value.setField name value fields).lookup other =
      if other = name then some value else fields.lookup other := by
  induction fields with
  | nil =>
      by_cases h : other = name
      · simp [Value.setField, h]
      · simp [Value.setField, List.lookup_cons, beq_false_of_ne h, h]
  | cons field rest ih =>
      obtain ⟨first, found⟩ := field
      by_cases hfirst : first = name
      · by_cases h : other = name
        · simp [Value.setField, hfirst, h]
        · simp [Value.setField, List.lookup_cons, beq_false_of_ne h, hfirst, h]
      · by_cases h : other = first
        · simp [Value.setField, hfirst, h]
        · simp [Value.setField, List.lookup_cons, beq_false_of_ne h, hfirst, ih]

theorem mergeOver_of_isPlain (h : IsPlain value) (below : Value) :
    mergeOver below value = value := by
  cases value with
  | table => exact h.elim
  | _ => rw [mergeOver]; simp

/-- Putting a value below a name sets the field of the name, whatever was there. -/
theorem putAt_name (value below : Value) (name : Text) (steps : List Step) :
    putAt value (.name name :: steps) below =
      .table (Value.setField name
        (putAt value steps ((below.fields.lookup name).getD .null)) below.fields) := by
  rw [putAt]

theorem lookup_putAt_name (value below : Value) (name other : Text) (steps : List Step) :
    (putAt value (.name name :: steps) below).fields.lookup other =
      if other = name then
        some (putAt value steps ((below.fields.lookup name).getD .null))
      else below.fields.lookup other := by
  rw [putAt_name]
  exact lookup_setField _ _ _ _

/-- A plain value is found where it is put. -/
theorem named?_putAt_self (h : IsPlain value) (names : List Text) (below : Value) :
    named? names (putAt value (names.map .name) below) = some value := by
  induction names generalizing below with
  | nil => rw [List.map_nil, putAt, mergeOver_of_isPlain h, named?]
  | cons name names ih =>
      rw [List.map_cons, named?, lookup_putAt_name, if_pos rfl, Option.bind_some, ih]

/-- What names lead to stays when a value is put where other names lead. -/
theorem named?_putAt_of_apart (hpath : ¬path <+: names) (hnames : ¬names <+: path)
    (value below : Value) :
    named? path (putAt value (names.map .name) below) = named? path below := by
  induction names generalizing path below with
  | nil => exact absurd List.nil_prefix hnames
  | cons name names ih =>
      cases path with
      | nil => exact absurd List.nil_prefix hpath
      | cons other path =>
          rw [List.map_cons, named?, lookup_putAt_name, named?]
          by_cases hsame : other = name
          · subst hsame
            rw [List.prefix_cons_inj] at hpath hnames
            rw [if_pos rfl, Option.bind_some, ih hpath hnames]
            cases below.fields.lookup other with
            | some inner => rfl
            | none =>
                cases path with
                | nil => exact absurd List.nil_prefix hpath
                | cons => rfl
          · rw [if_neg hsame]

theorem putAt_ne_array (h : IsPlain value) (names : List Text) (below : Value)
    (items : List Value) : putAt value (names.map .name) below ≠ .array items := by
  cases names with
  | nil =>
      rw [List.map_nil, putAt, mergeOver_of_isPlain h]
      rintro rfl
      exact h
  | cons name names =>
      rw [List.map_cons, putAt_name]
      nofun

/-- Where no array stands, places lead no further than names. -/
theorem at?_of_length_le {path : List (String × Nat)} (hpath : path.length ≤ 1)
    (h : ∀ items, value ≠ .array items) :
    at? path value = named? (path.map (·.1.toList)) value := by
  cases path with
  | nil => rfl
  | cons first rest =>
      obtain rfl : rest = [] := by
        rw [List.length_cons] at hpath
        exact List.eq_nil_of_length_eq_zero (by omega)
      obtain ⟨name, place⟩ := first
      rw [at?_single, List.map_cons, List.map_nil, named?]
      cases value with
      | array items => exact absurd rfl (h items)
      | table fields => exact (Option.bind_fun_some _).symm
      | _ => rfl

/-- A key begins with a name. -/
theorem exists_stepsOf (key : Text) : ∃ name steps, stepsOf key = .name name :: steps := by
  rw [stepsOf]
  split
  · exact ⟨_, _, rfl⟩
  · exact ⟨_, _, rfl⟩

theorem putLayer_cons (below value : Value) (key : Text) (layer : List (Text × Value)) :
    putLayer below ((key, value) :: layer) = putLayer (putAt value (stepsOf key) below) layer :=
  rfl

theorem putLayer_concat (below value : Value) (key : Text) (layer : List (Text × Value)) :
    putLayer below (layer ++ [(key, value)]) =
      putAt value (stepsOf key) (putLayer below layer) := by
  rw [putLayer, List.foldl_append]
  rfl

/-- The settings of layers are a table. -/
theorem exists_putLayer (fields : List (Text × Value)) (layer : List (Text × Value)) :
    ∃ result, putLayer (.table fields) layer = .table result := by
  induction layer generalizing fields with
  | nil => exact ⟨fields, rfl⟩
  | cons field layer ih =>
      obtain ⟨key, value⟩ := field
      obtain ⟨name, steps, hsteps⟩ := exists_stepsOf key
      rw [putLayer_cons, hsteps, putAt_name]
      exact ih _

end TreeFold.Settings
