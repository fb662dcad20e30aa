import TreeFold.Proofs.Comment.Blocks
import TreeFold.Proofs.Segment.LongestPath
import TreeFold.Proofs.Segment.Sections

/-!
# Results by lines

How the lines of a text end makes no difference. Whether a line is an annotation or blank is seen
without its ending, so the segments of a text are told by its lines, and so is what stripping leaves
of it.
-/

namespace TreeFold.Segment

open Text

section Annotation

open PathLabel

variable {line ending : Text}

/-- A comment token is found without the ending of the line. -/
theorem afterToken?_append (line : Text) (hending : ∀ c ∈ ending, isLineBreak c = true) :
    afterToken? (line ++ ending) = (afterToken? line).map (· ++ ending) := by
  have hslash : ∀ rest, ending ≠ '/' :: rest := by
    rintro rest rfl
    exact absurd (hending '/' List.mem_cons_self) (by decide)
  have hsign : ∀ rest, ending ≠ '#' :: rest := by
    rintro rest rfl
    exact absurd (hending '#' List.mem_cons_self) (by decide)
  rw [afterToken?.eq_def line]
  split
  · rfl
  · rfl
  · rename_i hslashes hnumber
    rw [afterToken?.eq_def]
    split
    · rename_i rest heq
      rcases List.append_eq_cons_iff.mp heq with ⟨-, hend⟩ | ⟨tail, rfl, htail⟩
      · exact absurd hend (hslash _)
      · rcases List.append_eq_cons_iff.mp htail.symm with ⟨-, hend⟩ | ⟨more, rfl, -⟩
        · exact absurd hend (hslash _)
        · exact absurd rfl (hslashes more)
    · rename_i rest heq
      rcases List.append_eq_cons_iff.mp heq with ⟨-, hend⟩ | ⟨more, rfl, -⟩
      · exact absurd hend (hsign _)
      · exact absurd rfl (hnumber more)
    · rfl

/-- Spaces and tabs are found without the ending of the line. -/
theorem unindented_append_ending (line : Text) (hending : ∀ c ∈ ending, isLineBreak c = true) :
    unindented (line ++ ending) = unindented line ++ ending := by
  by_cases hnil : unindented line = []
  · rw [unindented_append_of_nil hnil, hnil, List.nil_append, unindented]
    cases ending with
    | nil => rfl
    | cons c rest =>
        apply List.dropWhile_cons_of_neg
        intro hspace
        have hc := hending c List.mem_cons_self
        have hcases : c = ' ' ∨ c = '\t' := by simpa using hspace
        rcases hcases with rfl | rfl <;> cases hc
  · exact unindented_append hnil ending

/-- The path of an annotation is found without the ending of the line. -/
theorem rawPath?_append_ending (line : Text) (hending : ∀ c ∈ ending, isLineBreak c = true) :
    rawPath? (line ++ ending) = rawPath? line := by
  have hafter : afterToken? (unindented (line ++ ending)) =
      (afterToken? (unindented line)).map (· ++ ending) := by
    rw [unindented_append_ending line hending, afterToken?_append _ hending]
  cases htoken : afterToken? (unindented line) with
  | none =>
      rw [htoken] at hafter
      rw [unindented] at htoken hafter
      rw [rawPath?, rawPath?, htoken, hafter]
      rfl
  | some rest =>
      rw [htoken] at hafter
      rw [rawPath?_eq htoken, rawPath?_eq hafter, List.dropWhile_append]
      have hstop : ∀ tail, tail <:+ ending → ∀ c ∈ tail.head?,
          PathLabel.isPathChar c = false ∧ c ≠ '@' := by
        intro tail htail c hc
        have hbreak := hending c (htail.subset (List.mem_of_mem_head? hc))
        refine ⟨isPathChar_of_isLineBreak hbreak, ?_⟩
        rintro rfl
        cases hbreak
      by_cases hblank : rest.dropWhile isBlank = []
      · rw [hblank, List.isEmpty_nil, if_pos rfl]
        rw [← List.nil_append (ending.dropWhile isBlank)]
        exact markedPath?_append (hstop _ (List.dropWhile_suffix _))
      · rw [if_neg (by simpa using hblank)]
        exact markedPath?_append (hstop _ List.suffix_rfl)

/-- A line is the same annotation without its ending. -/
theorem ofLine?_trimLineBreak (rules : List AliasRule) {text : Text}
    (h : line ∈ linesInclusive text) : ofLine? rules (trimLineBreak line) = ofLine? rules line := by
  obtain ⟨body, ending, rfl, hbody, hending⟩ :=
    exists_ending_of_line ((linesInclusive_chain text).1 line h)
  rw [trimLineBreak_append hbody hending, ofLine?, ofLine?,
    rawPath?_append_ending body hending.isLineBreak]

end Annotation

section Sections

variable {rules : List AliasRule} {parts body : List Text} {text other : Text}

theorem trimLineBreak_trimLineBreak {line : Text} (h : line ∈ linesInclusive text) :
    trimLineBreak (trimLineBreak line) = trimLineBreak line := by
  have hplain := isLineBreak_of_mem_lines (List.mem_map_of_mem (f := trimLineBreak) h)
  simpa using trimLineBreak_append hplain (Or.inl rfl)

/-- Lines are grouped under the same annotations without their endings. -/
theorem group_map_trimLineBreak
    (h : ∀ part ∈ parts, PathLabel.ofLine? rules (trimLineBreak part) =
      PathLabel.ofLine? rules part) :
    group rules (parts.map trimLineBreak) =
      ⟨(group rules parts).preamble.map trimLineBreak,
        (group rules parts).sections.map fun found => (found.1, found.2.map trimLineBreak)⟩ := by
  induction parts with
  | nil => rfl
  | cons part parts ih =>
      obtain ⟨hpart, hparts⟩ := List.forall_mem_cons.mp h
      have hrest := ih hparts
      rw [List.map_cons]
      cases hlabel : PathLabel.ofLine? rules part with
      | none => rw [group_cons_of_none hlabel, group_cons_of_none (hpart.trans hlabel), hrest]; rfl
      | some label =>
          rw [group_cons_of_some hlabel, group_cons_of_some (hpart.trans hlabel), hrest]
          rfl

/-- One blank line is left out without its ending too. -/
theorem dropBlankLine_map_trimLineBreak (h : body ⊆ linesInclusive text) :
    dropBlankLine (body.map trimLineBreak) = (dropBlankLine body).map trimLineBreak := by
  cases body with
  | nil => rfl
  | cons line rest =>
      rw [List.map_cons, dropBlankLine, dropBlankLine,
        trimLineBreak_trimLineBreak (h List.mem_cons_self)]
      split <;> rfl

/-- The label of a section and the lines of its content, when any are left. -/
def labelledContent? : PathLabel × List Text → Option (PathLabel × List Text)
  | (label, body) =>
    match dropBlankLine body with
    | [] => none
    | content => some (label, content)

/-- The label of a segment and the lines of its content without their endings. -/
def outline (segment : Segment) : PathLabel × List Text :=
  (⟨segment.raw, segment.path⟩, lines segment.content)

/-- Of a section, the segment tells its label and the lines without their endings. -/
theorem map_outline_ofSection? (label : PathLabel) (h : body <:+: linesInclusive text) :
    (ofSection? (label, body)).map outline =
      labelledContent? (label, body.map trimLineBreak) := by
  rw [labelledContent?, dropBlankLine_map_trimLineBreak h.subset, ofSection?_eq]
  have hsuffix := dropBlankLine_suffix body
  cases hcontent : dropBlankLine body with
  | nil => rfl
  | cons line rest =>
      rw [hcontent] at hsuffix
      have hlines := linesInclusive_flatten_of_part (hsuffix.isInfix.trans h)
      simp only [Option.map_some, List.map_cons, outline, lines, hlines]

/-- The lines of a text tell the outlines of its segments. -/
theorem map_outline_extract (rules : List AliasRule) (text : Text) :
    (extract rules text).map outline =
      (group rules (lines text)).sections.filterMap labelledContent? := by
  have hgroup := group_map_trimLineBreak fun part (hpart : part ∈ linesInclusive text) =>
    ofLine?_trimLineBreak rules hpart
  rw [lines, hgroup, extract, List.map_filterMap, List.filterMap_map]
  apply List.filterMap_congr
  rintro ⟨label, body⟩ hsection
  obtain ⟨-, hpart, -⟩ := section_spec hsection
  exact map_outline_ofSection? label hpart

/-- Two segments have the same labels and the same lines, whatever ends these. -/
structure SameLines (segment other : Segment) : Prop where
  raw : segment.raw = other.raw
  path : segment.path = other.path
  content : lines segment.content = lines other.content

theorem sameLines_of_outline_eq {segment other : Segment} (h : outline segment = outline other) :
    SameLines segment other := by
  rw [outline, outline, Prod.mk.injEq, PathLabel.mk.injEq] at h
  exact ⟨h.1.1, h.1.2, h.2⟩

/-- Texts of the same lines are stripped to the same text, and they have segments of the same labels
and lines in the same order. -/
theorem strip_extract_of_lines_eq (h : lines text = lines other) :
    Comment.strip text = Comment.strip other ∧
      ∀ rules, List.Forall₂ SameLines (extract rules text) (extract rules other) := by
  refine ⟨Comment.strip_eq_of_lines_eq h, fun rules => ?_⟩
  have houtlines : (extract rules text).map outline = (extract rules other).map outline := by
    rw [map_outline_extract, map_outline_extract, h]
  rw [← List.forall₂_eq_eq_eq, List.forall₂_map_left_iff, List.forall₂_map_right_iff] at houtlines
  exact houtlines.imp fun _ _ => sameLines_of_outline_eq

/-- A text in which a block stands between a carriage return and a line feed. -/
def mixedEndings : Text :=
  ['#', 'a', '.', 'b', '\r', '/', '*', '*', '\x1e', '*', '/', '\n', 'x', '\u2028', ' ', '\x0c']

/-- The same lines with line feeds, the last one left out. -/
def feedEndings : Text :=
  ['#', 'a', '.', 'b', '\n', '/', '*', '*', '\n', '*', '/', '\n', 'x', '\n', ' ']

/-- The block is removed from both texts, and the segment of both has four lines. -/
theorem mixedEndings_strip_extract :
    lines mixedEndings = lines feedEndings ∧
      Comment.strip mixedEndings = Comment.strip feedEndings ∧
      List.Forall₂ SameLines (extract [] mixedEndings) (extract [] feedEndings) := by
  have hlines : lines mixedEndings = lines feedEndings := by decide
  obtain ⟨hstrip, hextract⟩ := strip_extract_of_lines_eq hlines
  exact ⟨hlines, hstrip, hextract []⟩

end Sections

end TreeFold.Segment
