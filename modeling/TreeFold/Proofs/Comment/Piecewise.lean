import TreeFold.Proofs.Comment.Again

/-!
# Stripping in pieces

The tokens of a block hold no line feed, so a block lies on one side of a line feed unless it is
opened in front of it and closed behind it. When the rest of a text opens no block, or the next
text closes none, the two are stripped apart: the lines that are kept of both together are those
kept of the one and then those kept of the other.
-/

namespace TreeFold.Comment

open Text

section Blocks

variable {text more rest b : Text} {parts parts' : List (Text × Text)} {rest' : Text}

/-- What comes behind a text is cut together with the rest of the text. -/
theorem Dissects.append (h : Dissects text parts rest)
    (hmore : Dissects (rest ++ more) parts' rest') :
    Dissects (text ++ more) (parts ++ parts') rest' := by
  induction h with
  | rest _ => exact hmore
  | @block gap block text rest parts hblock hfirst h ih =>
      have hcut := Dissects.block hblock hfirst (ih hmore)
      rwa [← List.append_assoc block, ← List.append_assoc gap] at hcut

/-- No block is left in the rest. -/
theorem Dissects.not_holdsBlock_rest (h : Dissects text parts rest) : ¬HoldsBlock rest := by
  induction h with
  | rest hnone => exact hnone
  | block _ _ _ ih => exact ih

/-- Only the rest of a text is looked at again when there is more behind it. -/
theorem removeBlocks_append (h : Dissects text parts rest) (more : Text) :
    removeBlocks (text ++ more) = parts.flatMap Prod.fst ++ removeBlocks (rest ++ more) := by
  obtain ⟨parts', rest', hmore, hremove⟩ := exists_dissects (rest ++ more)
  rw [hremove, removeBlocks_of_dissects (h.append hmore), outsideBlocks, outsideBlocks,
    List.flatMap_append, List.append_assoc]

/-- In front of a character that it does not hold, a token stands in the text before. -/
theorem isPrefix_of_append_cons {token : Text} {c : Char} (hc : c ∉ token)
    (h : token <+: text ++ c :: more) : token <+: text := by
  rcases List.prefix_or_prefix_of_prefix h (List.prefix_append _ _) with hshort | ⟨tail, rfl⟩
  · exact hshort
  · rw [List.prefix_append_right_inj] at h
    cases tail with
    | nil => exact (List.append_nil text).symm ▸ List.prefix_rfl
    | cons d tail =>
        obtain ⟨rfl, -⟩ := List.cons_prefix_cons.mp h
        exact absurd (List.mem_append_right _ List.mem_cons_self) hc

/-- A text that opens no block stays in front of a line feed. -/
theorem removeBlocks_append_of_not_opening (h : ¬opening <:+: text) (b : Text) :
    removeBlocks (text ++ '\n' :: b) = text ++ '\n' :: removeBlocks b := by
  induction text with
  | nil => exact removeBlocks_cons_of_break rfl b
  | cons c text ih =>
      have hopen : ¬opening <+: c :: (text ++ '\n' :: b) := by
        intro hopen
        rw [← List.cons_append] at hopen
        exact h (isPrefix_of_append_cons (by decide) hopen).isInfix
      rw [List.cons_append, removeBlocks_cons (not_opening_iff.mp hopen),
        ih fun hrest => h (hrest.trans (List.infix_cons List.infix_rfl))]
      rfl

theorem HoldsInOrder.isInfix {tokens : List Text} (h : HoldsInOrder tokens text) :
    ∀ token ∈ tokens, token <:+: text := by
  induction tokens generalizing text with
  | nil => exact List.forall_mem_nil _
  | cons token tokens ih =>
      obtain ⟨front, back, rfl, hback⟩ := h
      refine List.forall_mem_cons.mpr ⟨⟨front, back, List.append_assoc ..⟩, fun other hother => ?_⟩
      have hbehind : back <:+ front ++ (token ++ back) :=
        (List.suffix_append token back).trans (List.suffix_append front _)
      exact (ih hback other hother).trans hbehind.isInfix

/-- Without a closing token behind the line feed, no block goes over it. -/
theorem not_holdsBlock_append (htext : ¬HoldsBlock text) (hb : ¬closing <:+: b) :
    ¬HoldsBlock (text ++ '\n' :: b) := by
  rw [holdsBlock_iff_inOrder] at htext ⊢
  intro h
  obtain ⟨first, last, htokens, hfirst, hlast⟩ := h.split (by decide)
  by_cases hne : last = []
  · rw [hne, List.append_nil] at htokens
    exact htext (htokens ▸ hfirst)
  · have hclosing : last.getLast? = some closing := by
      rw [← List.getLast?_append_of_ne_nil first hne, ← htokens]
      rfl
    exact hb (hlast.isInfix closing (List.mem_of_getLast? hclosing))

/-- The blocks of two texts with a line feed between them are those of the one and of the other,
unless one is opened in the rest of the first text and closed in the second. -/
theorem removeBlocks_append_lineFeed {a : Text} (ha : Dissects a parts rest)
    (h : ¬closing <:+: b ∨ ¬opening <:+: rest) :
    removeBlocks (a ++ '\n' :: b) = removeBlocks a ++ '\n' :: removeBlocks b := by
  have hseam : removeBlocks (rest ++ '\n' :: b) = rest ++ '\n' :: removeBlocks b := by
    rcases h with hb | hrest
    · have hplain : ¬HoldsBlock b := by
        rw [holdsBlock_iff_inOrder]
        exact fun hblock => hb (hblock.isInfix closing (by simp))
      rw [removeBlocks_of_not_holdsBlock (not_holdsBlock_append ha.not_holdsBlock_rest hb),
        removeBlocks_of_not_holdsBlock hplain]
    · exact removeBlocks_append_of_not_opening hrest b
  rw [removeBlocks_append ha, hseam, removeBlocks_of_dissects ha, outsideBlocks, List.append_assoc]

end Blocks

section Lines

variable {a b : Text}

/-- A line feed at the end of a text adds no line but an empty one. -/
theorem condense_append_lineFeed (a : Text) : condense (a ++ ['\n']) = condense a := by
  induction a with
  | nil => rfl
  | cons c a ih =>
      rw [List.cons_append]
      cases hc : isLineBreak c with
      | false => rw [condense_cons hc, condense_cons hc, ih]
      | true => rw [condense_cons_of_break hc, condense_cons_of_break hc, ih]

/-- A line feed between two texts ends the last line of the first one, also when that ends in a
carriage return. -/
theorem fullLines_append_lineFeed (a b : Text) :
    fullLines (a ++ '\n' :: b) = fullLines a ++ fullLines b := by
  have hbreak : BreakBetween (a ++ ['\n']) b := by
    rw [BreakBetween, EndsInBreak, List.getLast?_concat]
    exact ⟨rfl, fun hpair => absurd hpair.1 (by decide)⟩
  have hcut : fullLines (a ++ ['\n'] ++ b) = fullLines (a ++ ['\n']) ++ fullLines b := by
    rw [fullLines, lines, linesInclusive_append (Or.inr (Or.inr hbreak)), List.map_append,
      List.filter_append]
    rfl
  rw [List.append_cons, hcut, ← fullLines_condense (a ++ ['\n']), condense_append_lineFeed,
    fullLines_condense]

theorem filterMap_keptLine?_append_lineFeed (a b : Text) :
    (lines (a ++ '\n' :: b)).filterMap keptLine? =
      (lines a).filterMap keptLine? ++ (lines b).filterMap keptLine? := by
  simp only [← filterMap_keptLine?_fullLines, fullLines_append_lineFeed, List.filterMap_append]

theorem joinWith_append {separator : Text} {front back : List Text} (hfront : front ≠ [])
    (hback : back ≠ []) :
    joinWith separator (front ++ back) =
      joinWith separator front ++ separator ++ joinWith separator back := by
  induction front with
  | nil => exact absurd rfl hfront
  | cons text front ih =>
      rw [List.cons_append, joinWith, joinWith, List.intercalate_cons_of_ne_nil (by simp [hback])]
      by_cases hnil : front = []
      · rw [hnil, List.nil_append, List.intercalate_singleton, joinWith]
      · have hrest := ih hnil
        rw [joinWith, joinWith] at hrest
        rw [hrest, List.intercalate_cons_of_ne_nil hnil]
        simp only [List.append_assoc]

theorem joinWith_lines_strip (text : Text) : joinWith ['\n'] (lines (strip text)) = strip text :=
  congrArg (joinWith ['\n']) (lines_strip text)

end Lines

/-- When the rest of a text opens no block, or the next text closes none, the two with a line feed
between them are stripped to the stripped texts with a line feed between them, or to the one that is
not empty. The lines are those of the one and of the other, so a quote that is left open in the
first text does not matter to the second. -/
theorem strip_append_lineFeed {a b rest : Text} {parts : List (Text × Text)}
    (ha : Dissects a parts rest) (h : ¬closing <:+: b ∨ ¬opening <:+: rest) :
    strip (a ++ '\n' :: b) = joinWith ['\n'] ([strip a, strip b].filter (· ≠ [])) ∧
      lines (strip (a ++ '\n' :: b)) = lines (strip a) ++ lines (strip b) := by
  have hlines : lines (strip (a ++ '\n' :: b)) = lines (strip a) ++ lines (strip b) := by
    rw [lines_strip, lines_strip, lines_strip, removeBlocks_append_lineFeed ha h,
      filterMap_keptLine?_append_lineFeed]
  refine ⟨?_, hlines⟩
  have hne : ∀ text, strip text ≠ [] → lines (strip text) ≠ [] := by
    intro text htext hnil
    rw [← joinWith_lines_strip, hnil] at htext
    exact htext rfl
  rw [← joinWith_lines_strip, hlines]
  by_cases hfront : strip a = []
  · rw [hfront]
    by_cases hback : strip b = []
    · rw [hback]
      rfl
    · rw [List.filter_cons_of_neg (by simp), List.filter_cons_of_pos (by simpa using hback),
        List.filter_nil, joinWith, joinWith, List.intercalate_singleton]
      exact joinWith_lines_strip b
  · rw [List.filter_cons_of_pos (by simpa using hfront)]
    by_cases hback : strip b = []
    · rw [hback, List.filter_cons_of_neg (by simp), List.filter_nil, joinWith, joinWith,
        List.intercalate_singleton]
      exact (congrArg _ (List.append_nil _)).trans (joinWith_lines_strip a)
    · rw [List.filter_cons_of_pos (by simpa using hback), List.filter_nil,
        joinWith_append (hne a hfront) (hne b hback), joinWith_lines_strip, joinWith_lines_strip,
        joinWith, List.intercalate_cons_cons, List.intercalate_singleton]

/-- A removed block, and behind it a quote and a block that are left open. -/
def leftOpen : Text :=
  ['a', '/', '*', '*', 'b', '*', '/', '"', ';', '/', '/', '/', '*', '*', '\r']

theorem leftOpen_dissects :
    Dissects leftOpen [(['a'], ['/', '*', '*', 'b', '*', '/'])]
      ['"', ';', '/', '/', '/', '*', '*', '\r'] := by
  apply @Dissects.block ['a'] ['/', '*', '*', 'b', '*', '/']
  · exact ⟨['b'], rfl, .cons (by decide) .nil⟩
  · exact .cons (by decide) .nil
  · apply Dissects.rest
    rw [holdsBlock_iff_inOrder]
    exact fun h => absurd (h.isInfix closing (by simp)) (by decide)

/-- The comment behind the open quote is kept, and the one in the next text is not. -/
theorem leftOpen_strip_append :
    strip (leftOpen ++ '\n' :: ['c', '/', '/', '*', '*']) =
        joinWith ['\n'] ([strip leftOpen, strip ['c', '/', '/', '*', '*']].filter (· ≠ [])) ∧
      lines (strip (leftOpen ++ '\n' :: ['c', '/', '/', '*', '*'])) =
        [['a', '"', ';', '/', '/', '/', '*', '*'], ['c']] := by
  have hclosing : ¬closing <:+: ['c', '/', '/', '*', '*'] := by decide
  obtain ⟨hstrip, hlines⟩ := strip_append_lineFeed leftOpen_dissects (Or.inl hclosing)
  refine ⟨hstrip, hlines.trans ?_⟩
  decide

end TreeFold.Comment
