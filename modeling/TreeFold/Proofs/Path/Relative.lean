import Mathlib.Data.Set.List
import TreeFold.Proofs.Path.Spelling

/-!
# Paths below a base

The path from a base to a location below it is made of the names on the way, and putting it behind
another path leads to the same names below that one.
-/

namespace TreeFold.Path

open Component

/-- The names on the way from the base to a path below it. -/
def LiesAt (workingDir : Location) (base path : Path) (names : List Name) : Prop :=
  ∃ start, base.lexicalLocation? workingDir = some start ∧
    path.lexicalLocation? workingDir = some (start ++ names)

variable {workingDir : Location} {base path : Path} {names : List Name}

/-- The names on the way are determined by the path. -/
theorem LiesAt.unique {others : List Name} (h : LiesAt workingDir base path names)
    (h' : LiesAt workingDir base path others) : names = others := by
  obtain ⟨start, hstart, hpath⟩ := h
  obtain ⟨start', hstart', hpath'⟩ := h'
  obtain rfl := Option.some.inj (hstart.symm.trans hstart')
  exact List.append_cancel_left (Option.some.inj (hpath.symm.trans hpath'))

/-- Paths at the same names are at the same location. -/
theorem LiesAt.lexicalLocation?_eq {other : Path} (h : LiesAt workingDir base path names)
    (h' : LiesAt workingDir base other names) :
    path.lexicalLocation? workingDir = other.lexicalLocation? workingDir := by
  obtain ⟨start, hstart, hpath⟩ := h
  obtain ⟨start', hstart', hother⟩ := h'
  obtain rfl := Option.some.inj (hstart.symm.trans hstart')
  rw [hpath, hother]

theorem steps_append (start names : Location) :
    steps (start ++ names) start = names.map .normal := by
  induction start with
  | nil => cases names <;> rfl
  | cons name start ih => rw [List.cons_append, steps, if_pos rfl, ih]

/-- The path from the base to a path below it is made of the names on the way. -/
theorem LiesAt.stepsFrom?_eq (h : LiesAt workingDir base path names) :
    path.stepsFrom? workingDir base = some (ofComponents (names.map .normal)) := by
  obtain ⟨start, hstart, hpath⟩ := h
  rw [stepsFrom?, hpath, hstart, ← steps_append start names]
  rfl

/-- A path that stays where it is put neither starts at the root nor steps up. -/
theorem isContained_iff (path : Path) :
    path.isContained = true ↔ path.isAbsolute = false ∧ .parent ∉ path.components := by
  rw [isContained, List.all_eq_true]
  constructor
  · intro h
    constructor
    · rw [← Bool.not_eq_true, isAbsolute_iff_head?]
      intro hroot
      exact absurd (h root (List.mem_of_mem_head? hroot)) (by decide)
    · intro hparent
      exact absurd (h parent hparent) (by decide)
  · rintro ⟨hrelative, hparent⟩ c hc
    cases c with
    | root =>
        rw [components_eq, List.mem_append, leading_fst, hrelative] at hc
        rcases hc with hc | hc
        · by_cases hdot : path.pieces.head? = some ['.'] <;> simp [hdot] at hc
        · exact absurd rfl (ne_of_mem_moves hc).1
    | current => rfl
    | parent => exact absurd hc hparent
    | normal name => rfl

/-- A path that does not step up makes names only. -/
theorem moves_eq_map_normal {path : Path} (h : .parent ∉ path.components) :
    ∃ names : List Name, path.moves = names.map .normal ∧ ∀ name ∈ names, IsEntryName name := by
  have hmem : path.moves ∈ Set.range (List.map Component.normal) := by
    rw [Set.range_list_map]
    intro c hc
    obtain ⟨piece, hpiece⟩ := exists_isPiece_of_mem_moves hc
    rcases (ofPiece?_eq_some hpiece.1).2.2 with rfl | rfl
    · have hparent : Component.parent ∈ path.components := by
        rw [components_eq]
        exact List.mem_append_right _ hc
      exact absurd hparent h
    · exact ⟨piece, rfl⟩
  obtain ⟨names, hnames⟩ := hmem
  refine ⟨names, hnames.symm, ?_⟩
  intro name hname
  have hmove : Component.normal name ∈ path.moves := hnames ▸ List.mem_map_of_mem hname
  obtain ⟨piece, hpiece⟩ := exists_isPiece_of_mem_moves hmove
  exact isEntryName_of_isPiece hpiece

section Names

variable (hnames : ∀ name ∈ names, IsEntryName name)
include hnames

theorem components_ofNames : (ofComponents (names.map .normal)).components = names.map .normal := by
  apply components_ofComponents
  refine ⟨[], names.map .normal, rfl, Or.inl rfl, fun c hc => ?_⟩
  obtain ⟨name, hname, rfl⟩ := List.mem_map.mp hc
  exact ⟨name, hnames name hname⟩

theorem isContained_ofNames : (ofComponents (names.map .normal)).isContained = true := by
  rw [isContained, components_ofNames hnames, List.all_eq_true]
  intro c hc
  obtain ⟨name, -, rfl⟩ := List.mem_map.mp hc
  rfl

theorem isAbsolute_ofNames : (ofComponents (names.map .normal)).isAbsolute = false := by
  rw [← Bool.not_eq_true, isAbsolute_iff_head?, components_ofNames hnames]
  cases names <;> simp

/-- Names put behind a path lead to the same names below it. -/
theorem spelled_join_ofNames (target : Path) :
    (target.join (ofComponents (names.map .normal))).spelled workingDir =
      target.spelled workingDir ++ names := by
  have hmoves : (ofComponents (names.map .normal)).moves = names.map .normal := by
    rw [moves_eq_filter, components_ofNames hnames]
    apply List.filter_eq_self.mpr
    intro c hc
    obtain ⟨name, -, rfl⟩ := List.mem_map.mp hc
    simp
  rw [spelled_join workingDir target (isAbsolute_ofNames hnames), hmoves,
    foldl_followComponent_normal]

end Names

end TreeFold.Path
