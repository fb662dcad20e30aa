import Mathlib.Tactic.IntervalCases
import TreeFold.Text.Blank
import TreeFold.Text.Line
import TreeFold.Text.Word

/-!
# Word characters are neither blank nor line breaks

The three classes are given by tables, so the two facts are checked on the members of the small
classes.
-/

namespace TreeFold.Text

theorem isWord_of_isBlank {c : Char} (h : isBlank c = true) : isWord c = false := by
  unfold isBlank at h
  split at h
  all_goals try decide +kernel
  simp only [Bool.and_eq_true, decide_eq_true_eq, Char.le_def] at h
  obtain ⟨hlow, hhigh⟩ := h
  have hl : 0x2000 ≤ c.toNat := hlow
  have hh : c.toNat ≤ 0x200a := hhigh
  rw [← Char.ofNat_toNat c]
  interval_cases c.toNat <;> decide +kernel

theorem isWord_of_isLineBreak {c : Char} (h : isLineBreak c = true) : isWord c = false := by
  unfold isLineBreak at h
  split at h
  all_goals first | decide +kernel | cases h

end TreeFold.Text
