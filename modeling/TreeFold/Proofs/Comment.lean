import Mathlib.Data.List.TakeWhile
import TreeFold.Comment
import TreeFold.Proofs.Text.Line

/-!
# The lines of stripped text

Stripped text has exactly the lines that stripping keeps: no kept line is empty, none holds a line
break, and none begins, behind spaces and tabs, with a line comment.
-/

namespace TreeFold.Comment

open Text

theorem trimEnd_isPrefix (text : Text) : trimEnd text <+: text := by
  have hsuffix : text.reverse.dropWhile isBlank <:+ text.reverse := List.dropWhile_suffix _
  simpa [trimEnd, trimEndWhile] using List.reverse_prefix.mpr hsuffix

theorem codeOf_isPrefix (line : Text) : codeOf line <+: line := by
  rw [codeOf]
  split
  · exact List.take_prefix _ _
  · exact List.prefix_rfl

theorem keptLine?_eq_some {line kept : Text} :
    keptLine? line = some kept ↔ trimEnd (codeOf line) = kept ∧ kept ≠ [] := by
  rw [keptLine?]
  split
  · rename_i hnil
    rw [hnil]
    constructor
    · rintro ⟨⟩
    · rintro ⟨rfl, hne⟩
      exact absurd rfl hne
  · rename_i hne
    rw [Option.some.injEq]
    constructor
    · rintro rfl
      exact ⟨rfl, hne⟩
    · exact And.left

/-- What is kept of a line is a start of it. -/
theorem prefix_of_keptLine? {line kept : Text} (h : keptLine? line = some kept) :
    kept <+: line := by
  obtain ⟨rfl, -⟩ := keptLine?_eq_some.mp h
  exact (trimEnd_isPrefix _).trans (codeOf_isPrefix line)

/-- The first line comment is found behind characters that are neither quotes nor slashes. -/
theorem scanLine_append {front : Text} (h : ∀ c ∈ front, isQuote c = false ∧ c ≠ '/')
    (passed : Nat) (rest : Text) :
    scanLine passed none (front ++ '/' :: '/' :: rest) = some (passed + front.length) := by
  induction front generalizing passed with
  | nil => simp [scanLine, isQuote]
  | cons c front ih =>
      obtain ⟨hquote, hslash⟩ := h c List.mem_cons_self
      rw [List.cons_append, scanLine, if_neg (by simp [hquote]), if_neg (by simp [hslash]),
        ih (fun d hd => h d (List.mem_cons_of_mem _ hd)), List.length_cons, Nat.add_right_comm,
        Nat.add_assoc]

/-- Nothing is kept of a line that begins, behind spaces and tabs, with a line comment. -/
theorem keptLine?_of_unindented {line : Text} (h : ['/', '/'] <+: unindented line) :
    keptLine? line = none := by
  obtain ⟨rest, hrest⟩ := h
  obtain ⟨indent, hindent, hline⟩ := exists_indent line
  rw [← hrest, List.cons_append, List.singleton_append] at hline
  have hplain : ∀ c ∈ indent, isQuote c = false ∧ c ≠ '/' := by
    intro c hc
    rcases hindent c hc with rfl | rfl <;> decide
  have hblank : ∀ c ∈ indent.reverse, isBlank c = true := by
    intro c hc
    rcases hindent c (List.mem_reverse.mp hc) with rfl | rfl <;> rfl
  have hcode : codeOf line = indent := by
    rw [codeOf, commentIndex?, hline, scanLine_append hplain, Nat.zero_add]
    exact List.take_left
  have htrim : trimEnd (codeOf line) = [] := by
    rw [hcode, trimEnd, trimEndWhile, List.dropWhile_eq_nil_iff.mpr hblank, List.reverse_nil]
  rw [keptLine?, htrim]

/-- The lines of stripped text are the lines that are kept. -/
theorem lines_strip (text : Text) :
    lines (strip text) = (lines (removeBlocks text)).filterMap keptLine? := by
  apply lines_joinWith
  intro kept hkept
  obtain ⟨line, hline, hsome⟩ := List.mem_filterMap.mp hkept
  refine ⟨(keptLine?_eq_some.mp hsome).2, fun c hc => ?_⟩
  exact isLineBreak_of_mem_lines hline c ((prefix_of_keptLine? hsome).subset hc)

/-- No line of stripped text begins, behind spaces and tabs, with a line comment. -/
theorem not_commented_of_mem_lines_strip {text line : Text} (h : line ∈ lines (strip text)) :
    ¬['/', '/'] <+: unindented line := by
  rw [lines_strip] at h
  obtain ⟨whole, -, hkept⟩ := List.mem_filterMap.mp h
  intro hslashes
  have hnone : keptLine? whole = none := by
    obtain ⟨more, rfl⟩ := prefix_of_keptLine? hkept
    apply keptLine?_of_unindented
    rw [unindented_append (List.IsPrefix.ne_nil hslashes (by simp))]
    exact hslashes.trans (List.prefix_append _ more)
  rw [hkept] at hnone
  cases hnone

end TreeFold.Comment
