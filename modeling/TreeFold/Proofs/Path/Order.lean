import Mathlib.Data.Char
import Mathlib.Data.List.Lex
import Mathlib.Data.List.Sort
import Mathlib.Data.Prod.Lex
import TreeFold.Proofs.Path.Moves

/-!
# The order of paths

Paths are ordered lexicographically by their components, and two paths have the same place in the
order exactly when they have the same components. A path comes before all that lies below it, and
what lies below a path stands together in the order.
-/

namespace TreeFold

namespace Component

/-- The place of a component: kinds by their rank, names by their characters. -/
def key : Component → ℕ ×ₗ List Char
  | normal name => toLex (3, name)
  | c => toLex (c.rank, [])

theorem key_injective : Function.Injective key := by
  intro a b h
  cases a <;> cases b <;> simp_all [key, rank]

theorem lt_iff (a b : Component) : a.lt b = true ↔ a.key < b.key := by
  cases a <;> cases b <;> simp [lt, key, rank, Prod.Lex.toLex_lt_toLex]

end Component

namespace Path

/-- The path comes before the other one. -/
def Before (a b : Path) : Prop :=
  componentsLt a.components b.components = true

theorem componentsLt_iff (as bs : List Component) :
    componentsLt as bs = true ↔ as.map Component.key < bs.map Component.key := by
  induction as generalizing bs with
  | nil => cases bs <;> simp [componentsLt]
  | cons a as ih =>
      cases bs with
      | nil => simp [componentsLt]
      | cons b bs =>
          rw [componentsLt, List.map_cons, List.map_cons, List.cons_lt_cons_iff]
          by_cases h : a = b
          · rw [if_pos h, ih, h]
            exact ⟨fun hlt => Or.inr ⟨rfl, hlt⟩, fun hlt => hlt.resolve_left (lt_irrefl _) |>.2⟩
          · have hkey : a.key ≠ b.key := fun heq => h (Component.key_injective heq)
            simp [h, hkey, Component.lt_iff]

theorem before_iff (a b : Path) :
    a.Before b ↔ a.components.map Component.key < b.components.map Component.key :=
  componentsLt_iff _ _

instance : Std.Irrefl Before :=
  ⟨fun a h => lt_irrefl _ ((before_iff a a).mp h)⟩

instance : IsTrans Path Before :=
  ⟨fun a b c hab hbc =>
    (before_iff a c).mpr (((before_iff a b).mp hab).trans ((before_iff b c).mp hbc))⟩

instance : Std.Antisymm Before :=
  ⟨fun a b hab hba =>
    absurd ((before_iff a b).mp hab) (lt_asymm ((before_iff b a).mp hba))⟩

theorem Before.components_ne {a b : Path} (h : a.Before b) : a.components ≠ b.components := by
  intro heq
  rw [before_iff, heq] at h
  exact lt_irrefl _ h

/-- A path that is not behind another one comes before it, or has the same components. -/
theorem le_iff (a b : Path) :
    a.le b = true ↔ a.components.map Component.key ≤ b.components.map Component.key := by
  rw [le, Bool.not_eq_true', ← Bool.not_eq_true, componentsLt_iff, not_lt]

theorem mem_sort {path : Path} {paths : List Path} : path ∈ sort paths ↔ path ∈ paths :=
  (List.mergeSort_perm paths le).mem_iff

/-- Sorting puts paths of different components in strictly ascending order. -/
theorem pairwise_sort {paths : List Path}
    (h : paths.Pairwise fun a b => a.components ≠ b.components) :
    (sort paths).Pairwise Before := by
  have hle : (sort paths).Pairwise fun a b => a.le b = true := by
    apply List.pairwise_mergeSort
    · intro a b c hab hbc
      rw [le_iff] at hab hbc ⊢
      exact hab.trans hbc
    · intro a b
      rw [Bool.or_eq_true, le_iff, le_iff]
      exact le_total _ _
  have hne : (sort paths).Pairwise fun a b => a.components ≠ b.components :=
    (List.mergeSort_perm paths le).symm.pairwise h fun hab => hab.symm
  refine hle.imp₂ ?_ hne
  intro a b hab hdiffer
  rw [before_iff]
  rw [le_iff] at hab
  exact lt_of_le_of_ne hab fun heq =>
    hdiffer (Component.key_injective.list_map heq)

section Below

variable {a b x y : Path}

/-- The order of lists of components that differ somewhere does not depend on what is behind. -/
theorem componentsLt_append {as bs : List Component} (h : componentsLt as bs = true)
    (hnot : ¬as <+: bs) (xs ys : List Component) :
    componentsLt (as ++ xs) (bs ++ ys) = true := by
  induction as generalizing bs with
  | nil => exact absurd List.nil_prefix hnot
  | cons a as ih =>
      cases bs with
      | nil => cases h
      | cons b bs =>
          rw [List.cons_append, List.cons_append, componentsLt]
          rw [componentsLt] at h
          by_cases hab : a = b
          · rw [if_pos hab] at h ⊢
            rw [hab, List.cons_prefix_cons] at hnot
            exact ih h fun hbegins => hnot ⟨rfl, hbegins⟩
          · rwa [if_neg hab] at h ⊢

/-- All that lies below a path comes before what lies below a later one. -/
theorem Before.below (h : a.Before b) (hnot : ¬a.components <+: b.components)
    (hx : a.components <+: x.components) (hy : b.components <+: y.components) : x.Before y := by
  obtain ⟨xs, hxs⟩ := hx
  obtain ⟨ys, hys⟩ := hy
  rw [Before, ← hxs, ← hys]
  exact componentsLt_append h hnot xs ys

end Below

end Path

end TreeFold
