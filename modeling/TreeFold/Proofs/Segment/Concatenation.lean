import TreeFold.Proofs.Segment.Sections

/-!
# Blobs put together

A blob whose first line is an annotation can be put behind a text that is empty or ends in a line
break: no line reaches across the seam, and the annotation ends what stands above it just as the end
of the text did. The segments are then those of the parts.
-/

namespace TreeFold.Segment

open Text

variable {rules : List AliasRule} {front back text : Text}

/-- The first line is an annotation. -/
def StartsLabelled (rules : List AliasRule) (text : Text) : Prop :=
  (linesInclusive text).head?.any (isLabelled rules) = true

instance (rules : List AliasRule) (text : Text) : Decidable (StartsLabelled rules text) :=
  inferInstanceAs (Decidable (_ = true))

/-- The second text can be put behind the first one: this is empty or ends in a line break, and
the second one starts with an annotation. -/
structure Adjoins (rules : List AliasRule) (front back : Text) : Prop where
  terminated : front = [] ∨ EndsInBreak front
  labelled : StartsLabelled rules back

instance (rules : List AliasRule) (front back : Text) : Decidable (Adjoins rules front back) :=
  decidable_of_iff ((front = [] ∨ EndsInBreak front) ∧ StartsLabelled rules back)
    ⟨fun h => ⟨h.1, h.2⟩, fun h => ⟨h.1, h.2⟩⟩

theorem startsLabelled_iff :
    StartsLabelled rules text ↔
      ∃ line rest label, linesInclusive text = line :: rest ∧
        PathLabel.ofLine? rules line = some label := by
  rw [StartsLabelled]
  cases linesInclusive text with
  | nil => simp
  | cons line rest => simp [isLabelled, Option.isSome_iff_exists]

/-- No annotation begins with a line feed. -/
theorem ofLine?_of_head?_lineFeed {line : Text} (h : line.head? = some '\n') :
    PathLabel.ofLine? rules line = none := by
  obtain ⟨rest, rfl⟩ := List.head?_eq_some_iff.mp h
  rfl

/-- The seam is the end of a line, a carriage return at the end of the first text included. -/
theorem Adjoins.breakBetween (h : Adjoins rules front back) :
    front = [] ∨ BreakBetween front back := by
  apply h.terminated.imp_right
  intro hbreak
  refine ⟨hbreak, ?_⟩
  rintro ⟨-, hfeed⟩
  obtain ⟨line, rest, label, hlines, hlabel⟩ := startsLabelled_iff.mp h.labelled
  have hline : line.head? = some '\n' := (head?_of_linesInclusive_eq_cons hlines).trans hfeed
  rw [ofLine?_of_head?_lineFeed hline] at hlabel
  cases hlabel

theorem Adjoins.linesInclusive_append (h : Adjoins rules front back) :
    linesInclusive (front ++ back) = linesInclusive front ++ linesInclusive back :=
  Text.linesInclusive_append (Or.inr h.breakBetween)

theorem StartsLabelled.preamble (h : StartsLabelled rules text) :
    (group rules (linesInclusive text)).preamble = [] := by
  obtain ⟨line, rest, label, hlines, hlabel⟩ := startsLabelled_iff.mp h
  rw [hlines, group_cons_of_some hlabel]

/-- Lines that begin with an annotation add their sections to those above them. -/
theorem group_append_of_preamble {upper lower : List Text}
    (h : (group rules lower).preamble = []) :
    group rules (upper ++ lower) =
      ⟨(group rules upper).preamble,
        (group rules upper).sections ++ (group rules lower).sections⟩ := by
  induction upper with
  | nil =>
      rw [List.nil_append, group_nil, List.nil_append, ← h]
  | cons line upper ih =>
      rw [List.cons_append]
      cases hline : PathLabel.ofLine? rules line with
      | none => rw [group_cons_of_none hline, group_cons_of_none hline, ih]
      | some label =>
          rw [group_cons_of_some hline, group_cons_of_some hline, ih]
          rfl

/-- Two blobs put together have the segments of the first one and then those of the second. -/
theorem extract_append (h : Adjoins rules front back) :
    extract rules (front ++ back) = extract rules front ++ extract rules back := by
  have hgroup : group rules (linesInclusive front ++ linesInclusive back) = _ :=
    group_append_of_preamble h.labelled.preamble
  simp only [extract, h.linesInclusive_append, hgroup, List.filterMap_append]

/-- What is put behind a text does not change its first line. -/
theorem StartsLabelled.append (hfront : StartsLabelled rules front)
    (h : linesInclusive (front ++ back) = linesInclusive front ++ linesInclusive back) :
    StartsLabelled rules (front ++ back) := by
  obtain ⟨line, rest, label, hlines, hlabel⟩ := startsLabelled_iff.mp hfront
  apply startsLabelled_iff.mpr
  exact ⟨line, rest ++ linesInclusive back, label, by rw [h, hlines, List.cons_append], hlabel⟩

theorem startsLabelled_flatten {texts : List Text}
    (hchain : (text :: texts).IsChain (Adjoins rules))
    (h : StartsLabelled rules text) : StartsLabelled rules (text :: texts).flatten := by
  induction texts generalizing text with
  | nil => simpa using h
  | cons next texts ih =>
      obtain ⟨hnext, hrest⟩ := List.isChain_cons_cons.mp hchain
      have hbehind : Adjoins rules text (next :: texts).flatten :=
        ⟨hnext.terminated, ih hrest hnext.labelled⟩
      exact h.append hbehind.linesInclusive_append

/-- The segments of blobs put together are the segments of the blobs in their order. -/
theorem extract_flatten {texts : List Text} (h : texts.IsChain (Adjoins rules)) :
    extract rules texts.flatten = texts.flatMap (extract rules) := by
  induction texts with
  | nil => rfl
  | cons text texts ih =>
      cases texts with
      | nil => simp
      | cons next texts =>
          obtain ⟨hnext, hrest⟩ := List.isChain_cons_cons.mp h
          have hbehind : Adjoins rules text (next :: texts).flatten :=
            ⟨hnext.terminated, startsLabelled_flatten hrest hnext.labelled⟩
          calc
            extract rules (text :: next :: texts).flatten
                = extract rules text ++ extract rules (next :: texts).flatten :=
              extract_append hbehind
            _ = (text :: next :: texts).flatMap (extract rules) :=
              congrArg (extract rules text ++ ·) (ih hrest)

end TreeFold.Segment
