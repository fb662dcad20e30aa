import TreeFold.Proofs.Comment.Stripped

/-!
# Stripping stripped text

The lines of stripped text are kept as they are, so a second pass changes nothing but for blocks. A
block can be left, since the removal of one block may put two halves of another together. Then the
second pass takes it out, and slashes are lost that no pass ever adds.

The line pass makes no block of its own. The tokens of a block hold no line feed, so each stands in
one of the lines that are joined, in the order in which the lines stood before.
-/

namespace TreeFold.Comment

open Text

section Order

/-- The tokens stand in the text, each one behind the token before it. -/
def HoldsInOrder : List Text → Text → Prop
  | [], _ => True
  | token :: tokens, text =>
    ∃ front back, text = front ++ (token ++ back) ∧ HoldsInOrder tokens back

variable {tokens others : List Text} {text more : Text}

/-- A block is an opening token with a closing one behind it. -/
theorem holdsBlock_iff_inOrder : HoldsBlock text ↔ HoldsInOrder [opening, closing] text := by
  constructor
  · rintro ⟨front, body, back, rfl⟩
    refine ⟨front, body ++ (closing ++ back), ?_, body, back, rfl, trivial⟩
    simp only [List.append_assoc]
  · rintro ⟨front, _, rfl, body, back, rfl, -⟩
    refine ⟨front, body, back, ?_⟩
    simp only [List.append_assoc]

theorem HoldsInOrder.append_left (h : HoldsInOrder tokens text) (front : Text) :
    HoldsInOrder tokens (front ++ text) := by
  cases tokens with
  | nil => trivial
  | cons token tokens =>
      obtain ⟨before, back, rfl, hback⟩ := h
      exact ⟨front ++ before, back, (List.append_assoc ..).symm, hback⟩

/-- Tokens in one text and tokens in the next are found in order behind one another. -/
theorem HoldsInOrder.append (h : HoldsInOrder tokens text) (hmore : HoldsInOrder others more) :
    HoldsInOrder (tokens ++ others) (text ++ more) := by
  induction tokens generalizing text with
  | nil => exact hmore.append_left text
  | cons token tokens ih =>
      obtain ⟨front, back, rfl, hback⟩ := h
      refine ⟨front, back ++ more, ?_, ih hback⟩
      simp only [List.append_assoc]

theorem HoldsInOrder.append_right (h : HoldsInOrder tokens text) (more : Text) :
    HoldsInOrder tokens (text ++ more) := by
  have hnone : HoldsInOrder [] more := trivial
  have happend := h.append hnone
  rwa [List.append_nil] at happend

/-- Around a character that is in none of the tokens, the first tokens stand in front of it and the
others behind it. -/
theorem HoldsInOrder.split {c : Char} (hplain : ∀ token ∈ tokens, c ∉ token)
    (h : HoldsInOrder tokens (text ++ c :: more)) :
    ∃ first rest, tokens = first ++ rest ∧ HoldsInOrder first text ∧ HoldsInOrder rest more := by
  induction tokens generalizing text with
  | nil => exact ⟨[], [], rfl, trivial, trivial⟩
  | cons token tokens ih =>
      obtain ⟨htoken, htokens⟩ := List.forall_mem_cons.mp hplain
      obtain ⟨front, back, heq, hback⟩ := h
      rw [← List.append_assoc] at heq
      rcases List.append_eq_append_iff.mp heq with ⟨between, hfront, hmore⟩ | ⟨between, rfl, rfl⟩
      · cases between with
        | nil =>
            rw [List.append_nil] at hfront
            rw [List.nil_append] at hmore
            rw [← hmore, ← List.nil_append (c :: more)] at hback
            obtain ⟨first, rest, rfl, hfirst, hrest⟩ := ih htokens hback
            refine ⟨token :: first, rest, rfl, ⟨front, [], ?_, hfirst⟩, hrest⟩
            rw [List.append_nil, hfront]
        | cons d between =>
            -- The token ends behind the character, so it begins behind it too.
            obtain ⟨rfl, rfl⟩ := List.cons.inj hmore
            refine ⟨[], token :: tokens, rfl, trivial, ?_⟩
            rcases List.append_eq_append_iff.mp hfront with ⟨tail, -, rfl⟩ | ⟨tail, rfl, htail⟩
            · exact absurd (by simp) htoken
            · cases tail with
              | nil =>
                  rw [List.nil_append] at htail
                  exact absurd (htail ▸ List.mem_cons_self) htoken
              | cons e tail =>
                  obtain ⟨rfl, rfl⟩ := List.cons.inj htail
                  exact ⟨tail, back, List.append_assoc .., hback⟩
      · obtain ⟨first, rest, rfl, hfirst, hrest⟩ := ih htokens hback
        refine ⟨token :: first, rest, rfl, ⟨front, between, ?_, hfirst⟩, hrest⟩
        exact List.append_assoc ..

end Order

section Lines

variable {tokens : List Text} {parts : List Text} {text : Text}

theorem trimLineBreak_isPrefix (line : Text) : trimLineBreak line <+: line := by
  have hline : line.reverse.reverse = line := List.reverse_reverse line
  rw [trimLineBreak]
  split
  · rename_i before hrev
    rw [hrev, List.reverse_cons, List.reverse_cons, List.append_assoc] at hline
    exact ⟨_, hline⟩
  · rename_i c before hrev
    rw [hrev, List.reverse_cons] at hline
    split
    · exact ⟨_, hline⟩
    · exact List.prefix_rfl
  · exact List.prefix_rfl

/-- The kept lines of texts, joined. -/
def joinKept (parts : List Text) : Text :=
  joinWith ['\n'] ((parts.map trimLineBreak).filterMap keptLine?)

theorem strip_eq_joinKept (text : Text) :
    strip text = joinKept (linesInclusive (removeBlocks text)) := rfl

/-- One text more puts nothing in front of the joined lines, or what is kept of it, with a line
feed when there are lines behind it. -/
theorem joinKept_cons (part : Text) (parts : List Text) :
    joinKept (part :: parts) = joinKept parts ∨
      ∃ kept, kept <+: part ∧
        (joinKept (part :: parts) = kept ∨
          joinKept (part :: parts) = kept ++ '\n' :: joinKept parts) := by
  rw [joinKept, joinKept, List.map_cons]
  cases hkept : keptLine? (trimLineBreak part) with
  | none =>
      left
      rw [List.filterMap_cons_none hkept]
  | some kept =>
      right
      refine ⟨kept, (prefix_of_keptLine? hkept).trans (trimLineBreak_isPrefix part), ?_⟩
      rw [List.filterMap_cons_some hkept]
      cases (parts.map trimLineBreak).filterMap keptLine? with
      | nil => exact Or.inl (List.intercalate_singleton ..)
      | cons next rest =>
          right
          rw [joinWith, List.intercalate_cons_cons, List.append_assoc]
          rfl

/-- Tokens without line feeds that stand in the joined lines stand in the texts themselves. -/
theorem HoldsInOrder.of_joinKept (hplain : ∀ token ∈ tokens, '\n' ∉ token)
    (h : HoldsInOrder tokens (joinKept parts)) : HoldsInOrder tokens parts.flatten := by
  induction parts generalizing tokens with
  | nil => exact h
  | cons part parts ih =>
      rw [List.flatten_cons]
      rcases joinKept_cons part parts with hnone | ⟨kept, ⟨cut, rfl⟩, hlast | hnext⟩
      · rw [hnone] at h
        exact (ih hplain h).append_left part
      · rw [hlast] at h
        exact (h.append_right cut).append_right parts.flatten
      · rw [hnext] at h
        obtain ⟨first, rest, rfl, hfirst, hrest⟩ := h.split hplain
        have hbehind := ih (fun token htoken => hplain token (List.mem_append_right _ htoken)) hrest
        exact (hfirst.append_right cut).append hbehind

/-- The line pass makes no block. -/
theorem holdsBlock_of_strip (h : HoldsBlock (strip text)) : HoldsBlock (removeBlocks text) := by
  rw [holdsBlock_iff_inOrder, strip_eq_joinKept] at h
  have hplain : ∀ token ∈ [opening, closing], '\n' ∉ token := by decide
  have hbefore := h.of_joinKept hplain
  rwa [flatten_linesInclusive, ← holdsBlock_iff_inOrder] at hbefore

theorem count_joinKept_le (parts : List Text) :
    (joinKept parts).count '/' ≤ parts.flatten.count '/' := by
  induction parts with
  | nil => exact Nat.le_refl _
  | cons part parts ih =>
      rw [List.flatten_cons, List.count_append]
      rcases joinKept_cons part parts with hnone | ⟨kept, hkept, hlast | hnext⟩
      · rw [hnone]
        exact ih.trans (Nat.le_add_left _ _)
      · rw [hlast]
        exact (hkept.sublist.count_le '/').trans (Nat.le_add_right _ _)
      · rw [hnext, List.count_append, List.count_cons_of_ne (by decide)]
        exact Nat.add_le_add (hkept.sublist.count_le '/') ih

/-- The line pass adds no slash. -/
theorem count_strip_le (text : Text) : (strip text).count '/' ≤ (removeBlocks text).count '/' := by
  have hle := count_joinKept_le (linesInclusive (removeBlocks text))
  rwa [flatten_linesInclusive] at hle

end Lines

section Blocks

variable {text rest : Text} {parts : List (Text × Text)}

/-- A text without block is left alone by the block pass. -/
theorem removeBlocks_of_not_holdsBlock (h : ¬HoldsBlock text) : removeBlocks text = text :=
  removeBlocks_of_dissects (.rest h)

theorem Dissects.count_le (h : Dissects text parts rest) :
    (outsideBlocks parts rest).count '/' + parts.length ≤ text.count '/' := by
  induction h with
  | rest _ => exact Nat.le_refl _
  | @block gap block text rest parts hblock hfirst h ih =>
      have hslash : 0 < block.count '/' :=
        List.count_pos_iff.mpr (hblock.opening_isPrefix.subset List.mem_cons_self)
      have houtside : outsideBlocks ((gap, block) :: parts) rest =
          gap ++ outsideBlocks parts rest := by
        rw [outsideBlocks, outsideBlocks, List.flatMap_cons, List.append_assoc]
      rw [houtside, List.count_append, List.count_append, List.count_append, List.length_cons]
      omega

/-- Where there is a block, slashes go with it. -/
theorem count_removeBlocks_lt (h : HoldsBlock text) :
    (removeBlocks text).count '/' < text.count '/' := by
  obtain ⟨parts, rest, hcut, hremove⟩ := exists_dissects text
  have hcount := hcut.count_le
  have hparts : parts ≠ [] := by
    rintro rfl
    cases hcut with
    | rest hnone => exact hnone h
  have hpos := List.length_pos_iff.mpr hparts
  rw [hremove]
  omega

end Blocks

/-- A line of stripped text is kept as it is. -/
theorem IsStrippedLine.keptLine?_eq {line : Text} (h : IsStrippedLine line) :
    keptLine? line = some line := by
  rw [keptLine?_eq_some]
  refine ⟨?_, h.ne_nil⟩
  rw [codeOf_of_not_commentBehind h.code, trimEnd, trimEndWhile]
  obtain ⟨front, last, hline⟩ := List.eq_nil_or_concat line |>.resolve_left h.ne_nil
  have hlast : isBlank last = false := by
    apply h.trimmed
    rw [hline, List.concat_eq_append, List.getLast?_concat]
    rfl
  rw [hline, List.concat_eq_append, List.reverse_append, List.reverse_singleton,
    List.singleton_append, List.dropWhile_cons_of_neg (by simp [hlast]), List.reverse_cons,
    List.reverse_reverse]

/-- The line pass changes nothing in stripped text. -/
theorem joinKept_strip (text : Text) : joinKept (linesInclusive (strip text)) = strip text := by
  have hkept : (lines (strip text)).filterMap keptLine? = lines (strip text) := by
    rw [List.filterMap_congr (g := some)
      fun line hline => (isStrippedLine_of_mem hline).keptLine?_eq]
    exact List.filterMap_some
  calc
    joinKept (linesInclusive (strip text))
        = joinWith ['\n'] (lines (strip text)) := congrArg (joinWith ['\n']) hkept
    _ = strip text := congrArg (joinWith ['\n']) (lines_strip text)

/-- Stripping stripped text changes nothing exactly when no block is left in it, and none is left
when the removal of blocks leaves none. -/
theorem strip_strip_iff (text : Text) :
    (strip (strip text) = strip text ↔ ¬HoldsBlock (strip text)) ∧
      (¬HoldsBlock (removeBlocks text) → ¬HoldsBlock (strip text)) := by
  refine ⟨⟨?_, ?_⟩, mt holdsBlock_of_strip⟩
  · intro hsame hblock
    have hlost := (count_strip_le (strip text)).trans_lt (count_removeBlocks_lt hblock)
    rw [hsame] at hlost
    exact Nat.lt_irrefl _ hlost
  · intro hnone
    rw [strip_eq_joinKept (strip text), removeBlocks_of_not_holdsBlock hnone, joinKept_strip]

/-- A block whose removal puts another one together. -/
def nested : Text := ['/', '*', '/', '*', '*', '*', '/', '*', 'a', '*', '/']

/-- A block between code and a comment, with none left behind. -/
def apart : Text := ['a', '/', '*', '*', '*', '/', ' ', '\r', '/', '/', '/', '*', '*']

/-- The block that was put together goes in a second pass, and a lone opening token does not. -/
theorem nested_strip_strip :
    (HoldsBlock (strip nested) ∧ strip (strip nested) ≠ strip nested) ∧
      ¬HoldsBlock (removeBlocks apart) ∧ strip (strip apart) = strip apart := by
  have hblock : HoldsBlock (strip nested) := ⟨[], ['a'], by decide⟩
  have hnone : ¬HoldsBlock (removeBlocks apart) := by
    rintro ⟨front, body, hheld⟩
    have hclosing : afterClose? (removeBlocks apart) = none := by decide
    apply not_closing_of_afterClose? hclosing (front ++ (opening ++ body))
    simpa only [List.append_assoc] using hheld
  obtain ⟨hiff, -⟩ := strip_strip_iff nested
  obtain ⟨hiff', hclean⟩ := strip_strip_iff apart
  exact ⟨⟨hblock, fun hsame => hiff.mp hsame hblock⟩, hnone, hiff'.mpr (hclean hnone)⟩

end TreeFold.Comment
