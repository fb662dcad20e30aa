import TreeFold.Proofs.Comment
import TreeFold.Proofs.Segment.Render

/-!
# Stripped text below an annotation

A stripped line has lost every line comment that an annotation could stand behind, so the
annotations left in stripped text are those behind a number sign. Stripped text is hence the
content of the annotation written above it exactly when it has content and none of these lines.
-/

namespace TreeFold.Segment

open Text Comment

variable (rules : List AliasRule)

/-- The line is an annotation that the comment token `token` introduces. -/
def IsIntroducedBy (token line : Text) : Prop :=
  isLabelled rules line = true ∧ token <+: unindented line

variable {rules}

theorem isLabelled_eq_false {line : Text} :
    isLabelled rules line = false ↔ PathLabel.ofLine? rules line = none := by
  rw [isLabelled, Option.isSome_eq_false_iff, Option.isNone_iff_eq_none]

/-- An annotation is introduced by one of the two comment tokens. -/
theorem isIntroducedBy_of_isLabelled {line : Text} (h : isLabelled rules line = true) :
    IsIntroducedBy rules ['/', '/'] line ∨ IsIntroducedBy rules ['#'] line := by
  obtain ⟨label, hlabel⟩ := Option.isSome_iff_exists.mp h
  obtain ⟨raw, hraw, -⟩ := Option.map_eq_some_iff.mp hlabel
  obtain ⟨rest, htoken, -⟩ := Option.bind_eq_some_iff.mp hraw
  rw [PathLabel.afterToken?.eq_def] at htoken
  split at htoken
  · rename_i hline
    left
    exact ⟨h, _, hline.symm⟩
  · rename_i hline
    right
    exact ⟨h, _, hline.symm⟩
  · cases htoken

/-- Behind its spaces and tabs, a line begins with slashes when it does so without its ending. -/
theorem slashes_of_append {line ending : Text} (hending : IsEnding ending)
    (h : ['/', '/'] <+: unindented (line ++ ending)) : ['/', '/'] <+: unindented line := by
  have hslash : '/' ∉ ending := fun hmem => absurd (hending.isLineBreak '/' hmem) (by decide)
  by_cases hline : unindented line = []
  · -- The slashes would belong to the ending.
    rw [unindented_append_of_nil hline] at h
    have hmem : '/' ∈ unindented ending := h.subset List.mem_cons_self
    exact absurd ((List.dropWhile_suffix _).subset hmem) hslash
  · rw [unindented_append hline] at h
    apply List.prefix_of_prefix_length_le h (List.prefix_append _ _)
    by_contra hshort
    obtain ⟨c, hc⟩ : ∃ c, unindented line = [c] := by
      apply List.length_eq_one_iff.mp
      have hpos := List.length_pos_iff.mpr hline
      simp only [List.length_cons, List.length_nil] at hshort
      omega
    rw [hc, List.singleton_append, List.cons_prefix_cons] at h
    exact hslash (h.2.subset List.mem_cons_self)

/-- No line of stripped text begins, behind spaces and tabs, with a line comment. -/
theorem not_commented_strip {text line : Text} (h : line ∈ linesInclusive (strip text)) :
    ¬['/', '/'] <+: unindented line := by
  obtain ⟨body, ending, rfl, hbody, hending⟩ := exists_line_of_mem_linesInclusive h
  intro hslashes
  exact not_commented_of_mem_lines_strip hbody (slashes_of_append hending hslashes)

/-- Below an annotation, a text without annotations is the content when it is not empty. -/
theorem extract_below_iff {path content : Text} (hpath : PathLabel.IsPathText path)
    (halias : AliasRule.normalize rules path = path) :
    extract rules ("// ".toList ++ path ++ ['\n', '\n'] ++ content) = [⟨path, path, content⟩] ↔
      content ≠ [] ∧ ∀ line ∈ linesInclusive content, isLabelled rules line = false := by
  have hwritten : "// ".toList ++ path ++ ['\n', '\n'] ++ content =
      render [⟨path, path, content⟩] := by
    rw [render_cons, written_eq, headLine, render, List.flatMap_nil]
    simp only [List.append_assoc, List.append_nil, List.cons_append, List.nil_append]
  rw [hwritten]
  constructor
  · intro h
    have hsegment : Annotatable rules ⟨path, path, content⟩ := by
      apply annotatable_of_mem_extract
      rw [h]
      exact List.mem_singleton_self _
    exact ⟨hsegment.content_ne, fun line hline =>
      isLabelled_eq_false.mpr (hsegment.content_plain line hline)⟩
  · rintro ⟨hne, hplain⟩
    apply extract_render_of_wellFormed
    constructor
    · intro segment hsegment
      rw [List.mem_singleton.mp hsegment]
      exact ⟨hpath, halias.symm, hne, fun line hline => isLabelled_eq_false.mp (hplain line hline)⟩
    · simp

/-- The annotations left in stripped text are introduced by a number sign. Written below the
annotation of a path that the aliases leave alone, stripped text is read back as the one segment of
that path exactly when it is not empty and has no such line. -/
theorem extract_strip (rules : List AliasRule) (text : Text) :
    (∀ line ∈ linesInclusive (strip text), ¬IsIntroducedBy rules ['/', '/'] line ∧
        (isLabelled rules line = true → IsIntroducedBy rules ['#'] line)) ∧
      ∀ path, PathLabel.IsPathText path → AliasRule.normalize rules path = path →
        (extract rules ("// ".toList ++ path ++ ['\n', '\n'] ++ strip text) =
            [⟨path, path, strip text⟩] ↔
          strip text ≠ [] ∧
            ∀ line ∈ linesInclusive (strip text), ¬IsIntroducedBy rules ['#'] line) := by
  have hhash : ∀ line ∈ linesInclusive (strip text), isLabelled rules line = true →
      IsIntroducedBy rules ['#'] line := by
    intro line hline hlabelled
    apply (isIntroducedBy_of_isLabelled hlabelled).resolve_left
    exact fun hslashes => not_commented_strip hline hslashes.2
  refine ⟨?_, ?_⟩
  · intro line hline
    exact ⟨fun h => not_commented_strip hline h.2, hhash line hline⟩
  · intro path hpath halias
    rw [extract_below_iff hpath halias]
    apply and_congr_right
    intro _
    apply forall₂_congr
    intro line hline
    constructor
    · intro hplain h
      rw [h.1] at hplain
      cases hplain
    · intro h
      by_contra hlabelled
      exact h (hhash line hline (by simpa using hlabelled))

/-- A line with a quoted address before its comment, and a line that is a comment alone. -/
def commented : Text :=
  "a('//'); // b\n// c.d\ne\n".toList

/-- The two lines that are kept come back as the content below their annotation. -/
theorem extract_strip_commented :
    extract [] ("// ".toList ++ ['a', '.', 'b'] ++ ['\n', '\n'] ++ strip commented) =
      [⟨['a', '.', 'b'], ['a', '.', 'b'], "a('//');\ne".toList⟩] := by
  have hpath : PathLabel.IsPathText ['a', '.', 'b'] :=
    Or.inl (PathLabel.isExtended_append ['a'] ['b'] (by decide) (by decide))
  have hplain : ∀ line ∈ linesInclusive (strip commented), isLabelled [] line = false := by
    decide
  apply ((extract_strip [] commented).2 _ hpath rfl).mpr
  refine ⟨by decide, fun line hline h => ?_⟩
  have hlabelled : isLabelled [] line = true := h.1
  rw [hplain line hline] at hlabelled
  cases hlabelled

end TreeFold.Segment
