import TreeFold.Proofs.Path.Relative
import TreeFold.Selection

/-!
# Two ways to lie in a directory

A path may begin with the components of a directory, both made absolute, and it may lie below the
directory when both are cleared of dots. Behind their common start the two paths part. The first
way asks that nothing is left of the directory there, and the two ways agree as long as what is
left of neither path steps up.
-/

namespace TreeFold.Path

open Component

/-- The path lies below the directory, or is the directory, when both are cleared of dots. -/
def LiesUnder (workingDir : Location) (directory path : Path) : Prop :=
  ∃ names, LiesAt workingDir directory path names

/-- Made absolute, the directory and the path have a common start, and behind it the remainders
`above` and `below` of the two begin differently. -/
structure PartAt (workingDir : Location) (directory path : Path)
    (common above below : List Component) : Prop where
  directory : directory.absolute? workingDir = some (common ++ above)
  path : path.absolute? workingDir = some (common ++ below)
  differ : ∀ c, above.head? = some c → below.head? ≠ some c

/-- The component comparison takes the path for one in the directory and it does not lie there, or
the other way about, with a step up in what is left of one of them behind their common start. -/
def Misjudged (workingDir : Location) (directory path : Path) : Prop :=
  ∃ common above below, PartAt workingDir directory path common above below ∧
    (above = [] ∧ .parent ∈ below ∧ ¬LiesUnder workingDir directory path ∨
      above ≠ [] ∧ (.parent ∈ above ∨ .parent ∈ below) ∧ LiesUnder workingDir directory path)

variable {workingDir : Location} {directory path : Path}

/-- Two lists have a longest common start. -/
theorem exists_common_start {α : Type*} (as bs : List α) :
    ∃ common above below, as = common ++ above ∧ bs = common ++ below ∧
      ∀ c, above.head? = some c → below.head? ≠ some c := by
  induction as generalizing bs with
  | nil => exact ⟨[], [], bs, rfl, rfl, by simp⟩
  | cons a as ih =>
      by_cases hhead : bs.head? = some a
      · obtain ⟨rest, rfl⟩ := List.head?_eq_some_iff.mp hhead
        obtain ⟨common, above, below, rfl, rfl, hdiffer⟩ := ih rest
        exact ⟨a :: common, above, below, rfl, rfl, hdiffer⟩
      · refine ⟨[], a :: as, bs, rfl, rfl, ?_⟩
        intro c hc
        rw [List.head?_cons, Option.some.injEq] at hc
        rwa [← hc]

/-- Behind its first component, the root, an absolute form has steps up and names. -/
theorem exists_tail_of_absolute? {parts : List Component}
    (h : path.absolute? workingDir = some parts) :
    ∃ rest, parts = root :: rest ∧ ∀ c ∈ rest, c = .parent ∨ ∃ name, c = .normal name := by
  rw [absolute?_eq] at h
  split at h
  · cases h
  · refine ⟨_, (Option.some.inj h).symm, fun c hc => ?_⟩
    rcases List.mem_append.mp hc with hc | hc
    · obtain ⟨name, -, rfl⟩ := List.mem_map.mp hc
      exact Or.inr ⟨name, rfl⟩
    · obtain ⟨hroot, hcurrent⟩ := ne_of_mem_moves hc
      cases c with
      | root => exact absurd rfl hroot
      | current => exact absurd rfl hcurrent
      | parent => exact Or.inl rfl
      | normal name => exact Or.inr ⟨name, rfl⟩

theorem exists_names {parts : List Component}
    (h : ∀ c ∈ parts, c = .parent ∨ ∃ name, c = .normal name)
    (hparent : .parent ∉ parts) : ∃ names : List Name, parts = names.map .normal := by
  have hmem : parts ∈ Set.range (List.map Component.normal) := by
    rw [Set.range_list_map]
    intro c hc
    rcases h c hc with rfl | ⟨name, rfl⟩
    · exact absurd hc hparent
    · exact ⟨name, rfl⟩
  obtain ⟨names, rfl⟩ := hmem
  exact ⟨names, rfl⟩

namespace PartAt

variable {common above below : List Component}

/-- The common start holds the root, and what is left behind it are steps up and names. -/
theorem mem_remainders (h : PartAt workingDir directory path common above below) :
    ∀ c ∈ above ++ below, c = .parent ∨ ∃ name, c = .normal name := by
  obtain ⟨dirRest, hdir, hdirRest⟩ := exists_tail_of_absolute? h.directory
  obtain ⟨pathRest, hpath, hpathRest⟩ := exists_tail_of_absolute? h.path
  cases common with
  | nil =>
      have hroot : below.head? = some root := by
        rw [← List.nil_append below, hpath, List.head?_cons]
      refine absurd hroot (h.differ root ?_)
      rw [← List.nil_append above, hdir, List.head?_cons]
  | cons first common =>
      intro c hc
      rcases List.mem_append.mp hc with hc | hc
      · apply hdirRest
        rw [← (List.cons.inj hdir).2]
        exact List.mem_append_right _ hc
      · apply hpathRest
        rw [← (List.cons.inj hpath).2]
        exact List.mem_append_right _ hc

/-- One remainder begins with the other only when there is nothing of it. -/
theorem prefix_iff (h : PartAt workingDir directory path common above below) :
    above <+: below ↔ above = [] := by
  constructor
  · intro hfront
    cases above with
    | nil => rfl
    | cons c above =>
        obtain ⟨rest, rfl⟩ := hfront
        exact absurd rfl (h.differ c rfl)
  · rintro rfl
    exact List.nil_prefix

/-- The component comparison asks that nothing is left of the directory. -/
theorem isWithin_iff (h : PartAt workingDir directory path common above below) :
    Selection.isWithin workingDir directory path = true ↔ above = [] := by
  rw [Selection.isWithin, h.directory, h.path, ← h.prefix_iff]
  exact List.isPrefixOf_iff_prefix.trans (List.prefix_append_right_inj common)

/-- When neither remainder steps up, the path lies below the directory exactly when nothing is left
of the directory. -/
theorem liesUnder_iff (h : PartAt workingDir directory path common above below)
    (habove : .parent ∉ above) (hbelow : .parent ∉ below) :
    LiesUnder workingDir directory path ↔ above = [] := by
  have hmem := h.mem_remainders
  obtain ⟨aboveNames, rfl⟩ := exists_names (fun c hc => hmem c (List.mem_append_left _ hc)) habove
  obtain ⟨belowNames, rfl⟩ := exists_names (fun c hc => hmem c (List.mem_append_right _ hc)) hbelow
  have hdir : directory.lexicalLocation? workingDir =
      some (common.foldl followComponent [] ++ aboveNames) := by
    rw [lexicalLocation?, h.directory, Option.map_some, List.foldl_append,
      foldl_followComponent_normal]
  have hpath : path.lexicalLocation? workingDir =
      some (common.foldl followComponent [] ++ belowNames) := by
    rw [lexicalLocation?, h.path, Option.map_some, List.foldl_append,
      foldl_followComponent_normal]
  rw [← h.prefix_iff]
  constructor
  · rintro ⟨names, start, hstart, hlies⟩
    obtain rfl := Option.some.inj (hdir.symm.trans hstart)
    have heq := Option.some.inj (hpath.symm.trans hlies)
    rw [List.append_assoc] at heq
    rw [List.append_cancel_left heq, List.map_append]
    exact List.prefix_append _ _
  · intro hnil
    rw [h.prefix_iff, List.map_eq_nil_iff] at hnil
    subst hnil
    exact ⟨belowNames, _, hdir, by rw [hpath, List.append_nil]⟩

end PartAt

/-- A directory and a path with absolute forms have a common start. -/
theorem exists_partAt {above below : List Component}
    (hdir : directory.absolute? workingDir = some above)
    (hpath : path.absolute? workingDir = some below) :
    ∃ common aboveRest belowRest,
      PartAt workingDir directory path common aboveRest belowRest := by
  obtain ⟨common, aboveRest, belowRest, rfl, rfl, hdiffer⟩ := exists_common_start above below
  exact ⟨common, aboveRest, belowRest, hdir, hpath, hdiffer⟩

/-- The comparison and the cleared forms both say no when one of the two has no absolute form. -/
theorem not_liesUnder_of_none
    (h : directory.absolute? workingDir = none ∨ path.absolute? workingDir = none) :
    Selection.isWithin workingDir directory path = false ∧
      ¬LiesUnder workingDir directory path := by
  constructor
  · rw [Selection.isWithin]
    rcases h with h | h
    · rw [h]
    · rw [h]
      cases directory.absolute? workingDir <;> rfl
  · rintro ⟨names, start, hdir, hpath⟩
    rw [lexicalLocation?, Option.map_eq_some_iff] at hdir hpath
    obtain ⟨dirParts, hdirParts, -⟩ := hdir
    obtain ⟨pathParts, hpathParts, -⟩ := hpath
    rcases h with h | h
    · rw [h] at hdirParts
      cases hdirParts
    · rw [h] at hpathParts
      cases hpathParts

/-- The component comparison tells whether a path lies below a directory exactly when it does not
misjudge the path. -/
theorem isWithin_iff_liesUnder :
    (Selection.isWithin workingDir directory path = true ↔ LiesUnder workingDir directory path) ↔
      ¬Misjudged workingDir directory path := by
  constructor
  · rintro h ⟨common, above, below, hpart, ⟨hnil, -, hlies⟩ | ⟨hne, -, hlies⟩⟩
    · exact hlies (h.mp (hpart.isWithin_iff.mpr hnil))
    · exact hne (hpart.isWithin_iff.mp (h.mpr hlies))
  · intro h
    by_cases hnone : directory.absolute? workingDir = none ∨ path.absolute? workingDir = none
    · obtain ⟨hwithin, hlies⟩ := not_liesUnder_of_none hnone
      simp [hwithin, hlies]
    · rw [not_or] at hnone
      obtain ⟨dirParts, hdir⟩ := Option.ne_none_iff_exists'.mp hnone.1
      obtain ⟨pathParts, hpath⟩ := Option.ne_none_iff_exists'.mp hnone.2
      obtain ⟨common, above, below, hpart⟩ := exists_partAt hdir hpath
      rw [hpart.isWithin_iff]
      by_cases hparent : .parent ∈ above ∨ .parent ∈ below
      · constructor
        · intro hnil
          by_contra hlies
          have hbelow : .parent ∈ below := hparent.resolve_left (by simp [hnil])
          exact h ⟨common, above, below, hpart, Or.inl ⟨hnil, hbelow, hlies⟩⟩
        · intro hlies
          by_contra hne
          exact h ⟨common, above, below, hpart, Or.inr ⟨hne, hparent, hlies⟩⟩
      · rw [not_or] at hparent
        exact (hpart.liesUnder_iff hparent.1 hparent.2).symm

theorem parent_not_mem_absolute? {parts : List Component}
    (h : path.absolute? workingDir = some parts) (hparent : .parent ∉ path.components) :
    .parent ∉ parts := by
  rw [absolute?_eq] at h
  split at h
  · cases h
  · obtain rfl := Option.some.inj h
    rw [components_eq, List.mem_append, not_or] at hparent
    simpa using hparent.2

/-- No path is misjudged when neither it nor the directory steps up. -/
theorem not_misjudged_of_plain (hdir : .parent ∉ directory.components)
    (hpath : .parent ∉ path.components) : ¬Misjudged workingDir directory path := by
  rintro ⟨common, above, below, hpart, h⟩
  have habove := parent_not_mem_absolute? hpart.directory hdir
  have hbelow := parent_not_mem_absolute? hpart.path hpath
  rw [List.mem_append, not_or] at habove hbelow
  rcases h with ⟨-, hparent, -⟩ | ⟨-, hparent | hparent, -⟩
  · exact hbelow.2 hparent
  · exact habove.2 hparent
  · exact hbelow.2 hparent

end TreeFold.Path
