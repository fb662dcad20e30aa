import Mathlib.Data.List.Infix
import TreeFold.Proofs.Text.Line
import TreeFold.Segment

/-!
# Where the lines of a blob go

Each line of a blob has a role that depends on the lines before it: it may stand before the first
annotation, be an annotation, separate an annotation from its content, or be content. The segments
of a blob are read off the roles: one for each annotation with content before the next one, and no
content line is lost, merged, repeated or moved.
-/

namespace TreeFold.Segment

open Text

variable (rules : List AliasRule)

/-- Whether a line is an annotation. -/
def isLabelled (line : Text) : Bool :=
  (PathLabel.ofLine? rules line).isSome

/-- What a line of a blob is there for. -/
inductive LineRole where
  /-- The line stands before the first annotation. -/
  | preamble
  | labelled (label : PathLabel)
  /-- The blank line directly after an annotation. -/
  | separator
  | content
deriving DecidableEq, Repr

namespace LineRole

/-- Whether the line is an annotation. -/
def isLabelled : LineRole → Bool
  | labelled _ => true
  | _ => false

/-- Whether the line is content. -/
def isContent : LineRole → Bool
  | content => true
  | _ => false

end LineRole

/-- The role of a line after the lines `before`. -/
def roleOf (before : List Text) (line : Text) : LineRole :=
  match PathLabel.ofLine? rules line with
  | some label => .labelled label
  | none =>
    if !before.any (isLabelled rules) then .preamble
    else if before.getLast?.any (isLabelled rules) && isBlankText (trimLineBreak line) then
      .separator
    else .content

/-- The lines of a blob with their roles, when the lines `before` precede them. -/
def classify (before : List Text) : List Text → List (LineRole × Text)
  | [] => []
  | line :: rest => (roleOf rules before line, line) :: classify (before ++ [line]) rest

/-- The content lines among classified lines. -/
def contentLines (classified : List (LineRole × Text)) : List Text :=
  (classified.filter (·.1.isContent)).map Prod.snd

/-- The segment of the annotation that comes first, when content follows before the next one. -/
def segmentAtHead? : List (LineRole × Text) → Option Segment
  | (.labelled label, _) :: after =>
    match contentLines (after.takeWhile (!·.1.isLabelled)) with
    | [] => none
    | lines => some ⟨label.path, label.raw, lines.flatten⟩
  | _ => none

/-- The content lines among lines up to the next annotation, when the lines `before` precede
them. -/
def contentAfter (before lines : List Text) : List Text :=
  if !before.any (isLabelled rules) then []
  else if before.getLast?.any (isLabelled rules) then dropBlankLine lines
  else lines

variable {rules}

/-- Classifying keeps every line in its place. -/
theorem map_snd_classify (before lines : List Text) :
    (classify rules before lines).map Prod.snd = lines := by
  induction lines generalizing before with
  | nil => rfl
  | cons line rest ih => rw [classify, List.map_cons, ih]

@[simp]
theorem group_nil : group rules [] = ⟨[], []⟩ := rfl

theorem group_cons_of_some {line : Text} {rest : List Text} {label : PathLabel}
    (h : PathLabel.ofLine? rules line = some label) :
    group rules (line :: rest) =
      ⟨[], (label, (group rules rest).preamble) :: (group rules rest).sections⟩ := by
  simp [group, Grouping.cons, h]

theorem group_cons_of_none {line : Text} {rest : List Text}
    (h : PathLabel.ofLine? rules line = none) :
    group rules (line :: rest) =
      ⟨line :: (group rules rest).preamble, (group rules rest).sections⟩ := by
  simp [group, Grouping.cons, h]

/-- Lines that are no annotations belong to what stands above them. -/
theorem group_append {plain rest : List Text}
    (h : ∀ line ∈ plain, PathLabel.ofLine? rules line = none) :
    group rules (plain ++ rest) =
      ⟨plain ++ (group rules rest).preamble, (group rules rest).sections⟩ := by
  induction plain with
  | nil => rfl
  | cons line plain ih =>
      rw [List.cons_append, group_cons_of_none (h line List.mem_cons_self),
        ih (fun l hl => h l (List.mem_cons_of_mem _ hl)), List.cons_append]

/-- The preamble is a start of the lines without annotations, and sections begin behind it. -/
theorem preamble_spec (rules : List AliasRule) (lines : List Text) :
    ∃ after, lines = (group rules lines).preamble ++ after ∧
      (∀ line ∈ (group rules lines).preamble, PathLabel.ofLine? rules line = none) ∧
      (after = [] → (group rules lines).sections = []) := by
  induction lines with
  | nil => exact ⟨[], by simp⟩
  | cons line rest ih =>
      cases h : PathLabel.ofLine? rules line with
      | some label =>
          rw [group_cons_of_some h]
          exact ⟨line :: rest, by simp⟩
      | none =>
          obtain ⟨after, hrest, hplain, hafter⟩ := ih
          rw [group_cons_of_none h]
          refine ⟨after, ?_, ?_, hafter⟩
          · rw [List.cons_append, ← hrest]
          · intro l hl
            rcases List.mem_cons.mp hl with rfl | hl
            · exact h
            · exact hplain l hl

/-- A section stands in the lines behind its annotation and holds no other one. -/
theorem section_spec {lines body : List Text} {label : PathLabel}
    (h : (label, body) ∈ (group rules lines).sections) :
    (∃ line, line ∈ lines ∧ PathLabel.ofLine? rules line = some label) ∧ body <:+: lines ∧
      ∀ line ∈ body, PathLabel.ofLine? rules line = none := by
  induction lines with
  | nil => simp at h
  | cons line rest ih =>
      have hlift : (label, body) ∈ (group rules rest).sections → (∃ l, l ∈ line :: rest ∧
          PathLabel.ofLine? rules l = some label) ∧ body <:+: line :: rest ∧
          ∀ l ∈ body, PathLabel.ofLine? rules l = none := by
        intro hrest
        obtain ⟨⟨l, hl, hlabel⟩, hbody, hplain⟩ := ih hrest
        exact ⟨⟨l, List.mem_cons_of_mem _ hl, hlabel⟩, List.infix_cons hbody, hplain⟩
      cases hline : PathLabel.ofLine? rules line with
      | none =>
          rw [group_cons_of_none hline] at h
          exact hlift h
      | some found =>
          rw [group_cons_of_some hline] at h
          rcases List.mem_cons.mp h with heq | hrest
          · obtain ⟨rfl, rfl⟩ := Prod.mk.inj heq
            obtain ⟨after, hafter, hplain, -⟩ := preamble_spec rules rest
            refine ⟨⟨line, List.mem_cons_self, hline⟩, ?_, hplain⟩
            exact ⟨[line], after, by rw [List.append_assoc, ← hafter]; rfl⟩
          · exact hlift hrest

theorem dropBlankLine_suffix (lines : List Text) : dropBlankLine lines <:+ lines := by
  cases lines with
  | nil => exact List.suffix_rfl
  | cons line rest =>
      rw [dropBlankLine]
      split
      · exact List.suffix_cons _ _
      · exact List.suffix_rfl

/-- A section yields a segment exactly when content is left in it. -/
theorem ofSection?_eq (label : PathLabel) (body : List Text) :
    ofSection? (label, body) = match dropBlankLine body with
      | [] => none
      | content => some ⟨label.path, label.raw, content.flatten⟩ := rfl

theorem contentLines_cons (role : LineRole) (line : Text) (after : List (LineRole × Text)) :
    contentLines ((role, line) :: after) =
      (if role.isContent then [line] else []) ++ contentLines after := by
  cases h : role.isContent <;> simp [contentLines, h]

theorem roleOf_of_some {line : Text} {label : PathLabel}
    (h : PathLabel.ofLine? rules line = some label) (before : List Text) :
    roleOf rules before line = .labelled label := by
  simp only [roleOf, h]

theorem isLabelled_roleOf_of_none {line : Text} (h : PathLabel.ofLine? rules line = none)
    (before : List Text) : (roleOf rules before line).isLabelled = false := by
  simp only [roleOf, h]
  split
  · rfl
  · split <;> rfl

theorem contentAfter_nil (before : List Text) : contentAfter rules before [] = [] := by
  simp [contentAfter, dropBlankLine]

/-- Directly behind an annotation, a blank line is not content. -/
theorem contentAfter_append_of_some {line : Text} {label : PathLabel}
    (h : PathLabel.ofLine? rules line = some label) (before lines : List Text) :
    contentAfter rules (before ++ [line]) lines = dropBlankLine lines := by
  simp [contentAfter, isLabelled, h]

/-- A line that is no annotation is content or not by its role, and the lines after it are read
with it among the lines before. -/
theorem contentAfter_cons_of_none {line : Text} (h : PathLabel.ofLine? rules line = none)
    (before lines : List Text) :
    contentAfter rules before (line :: lines) =
      (if (roleOf rules before line).isContent then [line] else []) ++
        contentAfter rules (before ++ [line]) lines := by
  have hplain : isLabelled rules line = false := by simp [isLabelled, h]
  simp only [contentAfter, roleOf, h, List.any_append, List.any_cons, List.any_nil,
    List.getLast?_concat, Option.any_some, hplain, Bool.or_false, Bool.false_eq_true, if_false]
  cases hopen : before.any (isLabelled rules) with
  | false => simp [LineRole.isContent]
  | true =>
      cases hfresh : before.getLast?.any (isLabelled rules) with
      | false => simp [LineRole.isContent]
      | true =>
          cases hblank : isBlankText (trimLineBreak line) <;>
            simp [LineRole.isContent, dropBlankLine, hblank]

/-- Up to the next annotation, the content is what stands in front of it. -/
theorem contentLines_classify_takeWhile (before lines : List Text) :
    contentLines ((classify rules before lines).takeWhile (!·.1.isLabelled)) =
      contentAfter rules before (group rules lines).preamble := by
  induction lines generalizing before with
  | nil => rw [group_nil, contentAfter_nil]; rfl
  | cons line rest ih =>
      rw [classify]
      cases h : PathLabel.ofLine? rules line with
      | some label =>
          rw [group_cons_of_some h, contentAfter_nil, roleOf_of_some h]
          rfl
      | none =>
          have hrole := isLabelled_roleOf_of_none h before
          rw [List.takeWhile_cons_of_pos (by simp [hrole]), contentLines_cons, ih,
            group_cons_of_none h, contentAfter_cons_of_none h]

/-- The content lines are those left in the sections, after what belongs to an annotation among
the lines `before`. -/
theorem contentLines_classify (before lines : List Text) :
    contentLines (classify rules before lines) =
      contentAfter rules before (group rules lines).preamble ++
        (group rules lines).sections.flatMap fun entry => dropBlankLine entry.2 := by
  induction lines generalizing before with
  | nil => rw [group_nil, contentAfter_nil]; rfl
  | cons line rest ih =>
      rw [classify, contentLines_cons, ih]
      cases h : PathLabel.ofLine? rules line with
      | some label =>
          rw [group_cons_of_some h, contentAfter_nil, roleOf_of_some h,
            contentAfter_append_of_some h]
          rfl
      | none =>
          rw [group_cons_of_none h, contentAfter_cons_of_none h, List.append_assoc]

/-- The segments of sections are those of the annotations among the classified lines. -/
theorem filterMap_segmentAtHead?_tails (before lines : List Text) :
    (classify rules before lines).tails.filterMap segmentAtHead? =
      (group rules lines).sections.filterMap ofSection? := by
  induction lines generalizing before with
  | nil => rfl
  | cons line rest ih =>
      rw [classify, List.tails_cons, List.filterMap_cons, ih]
      cases h : PathLabel.ofLine? rules line with
      | none =>
          have hhead : segmentAtHead?
              ((roleOf rules before line, line) :: classify rules (before ++ [line]) rest) =
                none := by
            have hrole := isLabelled_roleOf_of_none h before
            unfold segmentAtHead?
            split
            · rename_i heq
              rw [(Prod.mk.inj (List.cons.inj heq).1).1] at hrole
              cases hrole
            · rfl
          rw [hhead, group_cons_of_none h]
      | some label =>
          rw [group_cons_of_some h, roleOf_of_some h, List.filterMap_cons]
          simp only [segmentAtHead?, contentLines_classify_takeWhile,
            contentAfter_append_of_some h, ofSection?_eq]

/-- The lines of a section's segment are the lines left in the section. -/
theorem flatMap_linesInclusive_sections {text : Text} (sections : List (PathLabel × List Text))
    (h : ∀ entry ∈ sections, entry.2 <:+: linesInclusive text) :
    (sections.filterMap ofSection?).flatMap (fun segment => linesInclusive segment.content) =
      sections.flatMap fun entry => dropBlankLine entry.2 := by
  induction sections with
  | nil => rfl
  | cons entry sections ih =>
      have hrest := ih fun other hother => h other (List.mem_cons_of_mem _ hother)
      have hpart : dropBlankLine entry.2 <:+: linesInclusive text := by
        apply List.IsInfix.trans _ (h entry List.mem_cons_self)
        exact List.IsSuffix.isInfix (dropBlankLine_suffix entry.2)
      rw [List.filterMap_cons, List.flatMap_cons, ← hrest, ofSection?_eq]
      cases hbody : dropBlankLine entry.2 with
      | nil => rfl
      | cons line rest =>
          rw [hbody] at hpart
          rw [List.flatMap_cons, linesInclusive_flatten_of_part hpart]

/-- Every line of a blob has one role. The segments are those of the annotations with content
before the next annotation, in their order, and the lines of their contents are exactly the
content lines of the blob, each once and in order. -/
theorem extract_eq_filterMap_classify (rules : List AliasRule) (blob : Text) :
    (classify rules [] (linesInclusive blob)).map Prod.snd = linesInclusive blob ∧
      extract rules blob =
        (classify rules [] (linesInclusive blob)).tails.filterMap segmentAtHead? ∧
      (extract rules blob).flatMap (fun segment => linesInclusive segment.content) =
        contentLines (classify rules [] (linesInclusive blob)) := by
  refine ⟨?_, ?_, ?_⟩
  · exact map_snd_classify [] (linesInclusive blob)
  · exact (filterMap_segmentAtHead?_tails [] (linesInclusive blob)).symm
  · rw [contentLines_classify, extract]
    exact flatMap_linesInclusive_sections _ fun entry hentry => (section_spec hentry).2.1

end TreeFold.Segment
