import TreeFold.Proofs.Segment.PathText
import TreeFold.Proofs.Segment.Sections

/-!
# Blobs written from segments

Segments are written as an annotation line, an empty line and the content. Reading gives the
segments back when they are well formed, and what reading finds in any text is well formed. So
reading and writing are inverse between well-formed lists and the blobs written from them.
-/

namespace TreeFold.Segment

open Text

/-- The blob of one segment. -/
def written (segment : Segment) : Text :=
  "// ".toList ++ segment.raw ++ ['\n'] ++ ['\n'] ++ segment.content

/-- The blob of a list of segments. -/
def render (segments : List Segment) : Text :=
  segments.flatMap written

/-- A segment that an annotation line can stand for. -/
structure Annotatable (rules : List AliasRule) (segment : Segment) : Prop where
  raw_shape : PathLabel.IsPathText segment.raw
  path_eq : segment.path = AliasRule.normalize rules segment.raw
  content_ne : segment.content ≠ []
  content_plain : ∀ line ∈ linesInclusive segment.content, PathLabel.ofLine? rules line = none

/-- The segments can be annotated, and the content of each but the last ends in a line break. -/
structure WellFormed (rules : List AliasRule) (segments : List Segment) : Prop where
  annotatable : ∀ segment ∈ segments, segment.Annotatable rules
  terminated : ∀ segment ∈ segments.dropLast, EndsInBreak segment.content

theorem render_cons (segment : Segment) (segments : List Segment) :
    render (segment :: segments) = segment.written ++ render segments := rfl

variable {rules : List AliasRule}

theorem WellFormed.tail {segment : Segment} {segments : List Segment}
    (h : WellFormed rules (segment :: segments)) : WellFormed rules segments := by
  constructor
  · intro s hs
    exact h.annotatable s (List.mem_cons_of_mem _ hs)
  · intro s hs
    apply h.terminated
    rw [List.dropLast_cons_of_ne_nil (by rintro rfl; simp at hs)]
    exact List.mem_cons_of_mem _ hs

/-- The annotation line of a segment, with its break. -/
def headLine (segment : Segment) : Text :=
  "// ".toList ++ segment.raw ++ ['\n']

theorem written_eq (segment : Segment) :
    segment.written = segment.headLine ++ ['\n'] ++ segment.content := rfl

theorem getLast?_headLine (segment : Segment) : segment.headLine.getLast? = some '\n' :=
  List.getLast?_concat

theorem ofLine?_headLine {segment : Segment} (h : segment.Annotatable rules) :
    PathLabel.ofLine? rules segment.headLine = some ⟨segment.raw, segment.path⟩ := by
  have hraw : PathLabel.rawPath? segment.headLine = some segment.raw := by
    apply PathLabel.rawPath?_comment h.raw_shape
    intro c hc
    cases hc
    rfl
  rw [PathLabel.ofLine?, hraw, Option.map_some, h.path_eq]

theorem ofLine?_lineFeed : PathLabel.ofLine? rules ['\n'] = none := rfl

theorem isLineBreak_of_isPathText {raw : Text} (h : PathLabel.IsPathText raw) :
    ∀ c ∈ raw, isLineBreak c = false := by
  have hpath : ∀ text, PathLabel.IsExtended text → ∀ c ∈ text, isLineBreak c = false := by
    intro text htext c hc
    by_contra hb
    have hchar := htext.isPathChar c hc
    rw [PathLabel.isPathChar_of_isLineBreak (by simpa using hb)] at hchar
    cases hchar
  rcases h with h | ⟨path, rfl, h⟩
  · exact hpath raw h
  · intro c hc
    rcases List.mem_cons.mp hc with rfl | hc
    · rfl
    · exact hpath path h c hc

/-- The lines of a written segment, whatever is written behind it. -/
theorem linesInclusive_written {segment : Segment} (h : segment.Annotatable rules) (rest : Text)
    (hrest : rest = [] ∨ BreakBetween segment.content rest) :
    linesInclusive (segment.written ++ rest) =
      segment.headLine :: ['\n'] :: (linesInclusive segment.content ++ linesInclusive rest) := by
  have hhead : linesInclusive segment.headLine = [segment.headLine] := by
    apply linesInclusive_line
    intro c hc
    rcases List.mem_append.mp hc with hc | hc
    · have hmark : "// ".toList.all (!isLineBreak ·) = true := by decide
      simpa using List.all_eq_true.mp hmark c hc
    · exact isLineBreak_of_isPathText h.raw_shape c hc
  have hbreak : BreakBetween segment.headLine (['\n'] ++ (segment.content ++ rest)) := by
    rw [BreakBetween, EndsInBreak, getLast?_headLine]
    exact ⟨rfl, fun hcr => absurd hcr.1 (by decide)⟩
  have hblank : BreakBetween ['\n'] (segment.content ++ rest) :=
    ⟨rfl, fun hcr => absurd hcr.1 (by decide)⟩
  have hsplit : segment.written ++ rest =
      segment.headLine ++ (['\n'] ++ (segment.content ++ rest)) := by
    rw [written_eq, List.append_assoc, List.append_assoc]
  rw [hsplit, linesInclusive_append (Or.inr (Or.inr hbreak)), hhead,
    linesInclusive_append (Or.inr (Or.inr hblank)),
    linesInclusive_append (hrest.imp_right Or.inr)]
  rfl

/-- A written segment is followed by nothing or by the slash of the next annotation. -/
theorem breakBetween_render {segment : Segment} {segments : List Segment}
    (h : WellFormed rules (segment :: segments)) :
    render segments = [] ∨ BreakBetween segment.content (render segments) := by
  cases segments with
  | nil => exact Or.inl rfl
  | cons next segments =>
      right
      have hterminated : EndsInBreak segment.content := h.terminated segment (by simp)
      refine ⟨hterminated, ?_⟩
      rintro ⟨-, hhead⟩
      have hslash : (render (next :: segments)).head? = some '/' := rfl
      rw [hslash] at hhead
      cases hhead

/-- The first line of written segments is an annotation. -/
theorem preamble_render {segments : List Segment} (h : WellFormed rules segments) :
    (group rules (linesInclusive (render segments))).preamble = [] := by
  cases segments with
  | nil => rfl
  | cons segment segments =>
      have hsegment := h.annotatable segment List.mem_cons_self
      rw [render_cons, linesInclusive_written hsegment _ (breakBetween_render h),
        group_cons_of_some (ofLine?_headLine hsegment)]

/-- Reading the blob of well-formed segments gives the segments back. -/
theorem extract_render_of_wellFormed {segments : List Segment} (h : WellFormed rules segments) :
    extract rules (render segments) = segments := by
  induction segments with
  | nil => rfl
  | cons segment segments ih =>
      have hsegment := h.annotatable segment List.mem_cons_self
      have hrest := ih h.tail
      obtain ⟨line, lines, hlines⟩ :=
        List.exists_cons_of_ne_nil (linesInclusive_ne_nil hsegment.content_ne)
      have hgroup : group rules (linesInclusive (render (segment :: segments))) =
          ⟨[], (⟨segment.raw, segment.path⟩, ['\n'] :: linesInclusive segment.content) ::
            (group rules (linesInclusive (render segments))).sections⟩ := by
        rw [render_cons, linesInclusive_written hsegment _ (breakBetween_render h),
          group_cons_of_some (ofLine?_headLine hsegment), group_cons_of_none ofLine?_lineFeed,
          group_append hsegment.content_plain, preamble_render h.tail, List.append_nil]
      have hsection : ofSection? (⟨segment.raw, segment.path⟩,
          ['\n'] :: linesInclusive segment.content) = some segment := by
        have hdrop : dropBlankLine (['\n'] :: linesInclusive segment.content) =
            linesInclusive segment.content := rfl
        rw [ofSection?_eq, hdrop]
        have hcontent := flatten_linesInclusive segment.content
        rw [hlines] at hcontent ⊢
        simp only [hcontent]
      rw [extract, hgroup, List.filterMap_cons, hsection]
      exact congrArg (segment :: ·) hrest

/-- A segment that is found can be annotated. -/
theorem annotatable_of_mem_extract {text : Text} {segment : Segment}
    (h : segment ∈ extract rules text) : segment.Annotatable rules := by
  obtain ⟨⟨label, body⟩, hmem, hsegment⟩ := List.mem_filterMap.mp h
  obtain ⟨⟨line, -, hlabel⟩, hpart, hplain⟩ := section_spec hmem
  obtain ⟨raw, hraw, rfl⟩ := Option.map_eq_some_iff.mp hlabel
  have hsuffix := dropBlankLine_suffix body
  rw [ofSection?_eq] at hsegment
  split at hsegment
  · cases hsegment
  · rename_i content hne
    cases hsegment
    have hlines : linesInclusive (dropBlankLine body).flatten = dropBlankLine body := by
      apply linesInclusive_flatten_of_part
      exact List.IsInfix.trans ( List.IsSuffix.isInfix hsuffix) hpart
    refine ⟨PathLabel.isPathText_of_rawPath? hraw, rfl, fun hnil => hne ?_, ?_⟩
    · rw [← hlines]
      exact linesInclusive_eq_nil.mpr hnil
    · rw [hlines]
      exact fun l hl => hplain l (hsuffix.subset hl)

/-- Of the segments found at the end of a text, the content of each but the last ends in a line
break. -/
theorem terminated_of_suffix {text : Text} {lines : List Text}
    (h : lines <:+ linesInclusive text) :
    ∀ segment ∈ ((group rules lines).sections.filterMap ofSection?).dropLast,
      EndsInBreak segment.content := by
  induction lines with
  | nil => simp
  | cons line rest ih =>
      have hrest := ih ((List.suffix_cons _ _).trans h)
      cases hline : PathLabel.ofLine? rules line with
      | none =>
          rw [group_cons_of_none hline]
          exact hrest
      | some label =>
          obtain ⟨after, hafter, -, hsections⟩ := preamble_spec rules rest
          obtain ⟨skipped, hskipped⟩ := dropBlankLine_suffix (group rules rest).preamble
          rw [group_cons_of_some hline, List.filterMap_cons, ofSection?_eq]
          cases hbody : dropBlankLine (group rules rest).preamble with
          | nil => exact hrest
          | cons first more =>
              cases hfound : (group rules rest).sections.filterMap ofSection? with
              | nil => simp
              | cons other others =>
                  have hne : after ≠ [] := by
                    rintro rfl
                    rw [hsections rfl] at hfound
                    cases hfound
                  obtain ⟨next, tail, rfl⟩ := List.exists_cons_of_ne_nil hne
                  rw [hfound] at hrest
                  intro segment hsegment
                  rw [List.dropLast_cons_of_ne_nil (List.cons_ne_nil _ _)] at hsegment
                  rcases List.mem_cons.mp hsegment with rfl | hsegment
                  · apply endsInBreak_flatten_of_next (List.cons_ne_nil _ _)
                    have hpart : (first :: more) ++ next :: tail <:+ rest := by
                      refine ⟨skipped, ?_⟩
                      rw [← List.append_assoc, ← hbody, hskipped, ← hafter]
                    exact List.IsSuffix.isInfix (hpart.trans ((List.suffix_cons _ _).trans h))
                  · exact hrest segment hsegment

/-- What is found in any text is well formed. -/
theorem wellFormed_extract (rules : List AliasRule) (text : Text) :
    WellFormed rules (extract rules text) :=
  ⟨fun _ h => annotatable_of_mem_extract h, terminated_of_suffix List.suffix_rfl⟩

/-- Reading inverts writing on well-formed lists of segments, reading any text gives a well-formed
list, and hence writing what was read and reading it again changes nothing. -/
theorem extract_render (rules : List AliasRule) :
    (∀ segments, WellFormed rules segments → extract rules (render segments) = segments) ∧
      ∀ text, WellFormed rules (extract rules text) ∧
        extract rules (render (extract rules text)) = extract rules text := by
  constructor
  · intro segments h
    exact extract_render_of_wellFormed h
  · intro text
    have h := wellFormed_extract rules text
    exact ⟨h, extract_render_of_wellFormed h⟩

/-- A terminated segment and a last one that is not. -/
def twoSegments : List Segment :=
  [⟨['a', '.', 'b'], ['a', '.', 'b'], ['x', '\n']⟩, ⟨['c', '.', 'd'], ['c', '.', 'd'], ['y']⟩]

/-- The two segments are read back. -/
theorem extract_render_twoSegments : extract [] (render twoSegments) = twoSegments := by
  apply (extract_render []).1
  constructor
  · intro segment hsegment
    rcases List.mem_cons.mp hsegment with rfl | hsegment
    · exact ⟨Or.inl (PathLabel.isExtended_append ['a'] ['b'] (by decide) (by decide)), rfl,
        by decide, by decide⟩
    · rw [List.mem_singleton.mp hsegment]
      exact ⟨Or.inl (PathLabel.isExtended_append ['c'] ['d'] (by decide) (by decide)), rfl,
        by decide, by decide⟩
  · decide

end TreeFold.Segment
