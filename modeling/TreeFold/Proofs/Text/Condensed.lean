import TreeFold.Proofs.Text.Line

/-!
# Text with condensed line breaks

Condensed text has the lines of a text, but a single line feed for each run of line breaks and
nothing behind its last line. It depends on the lines only, it is found character by character, and
its lines are those of the text, empty ones aside.
-/

namespace TreeFold.Text

/-- A line feed in front of a text that is not empty and does not begin with one. -/
def breakBefore (text : Text) : Text :=
  if text = [] ∨ text.head? = some '\n' then text else '\n' :: text

/-- The lines of a text, with a single line feed for each run of breaks. -/
def condense (text : Text) : Text :=
  (lines text).foldr (fun line rest => line ++ breakBefore rest) []

/-- The lines of a text that are not empty. -/
def fullLines (text : Text) : List Text :=
  (lines text).filter (· ≠ [])

@[simp]
theorem breakBefore_nil : breakBefore [] = [] := rfl

@[simp]
theorem breakBefore_lineFeed (text : Text) : breakBefore ('\n' :: text) = '\n' :: text :=
  if_pos (Or.inr rfl)

theorem breakBefore_of_ne {text : Text} (hnil : text ≠ []) (hhead : text.head? ≠ some '\n') :
    breakBefore text = '\n' :: text :=
  if_neg (by simp [hnil, hhead])

theorem breakBefore_cases (text : Text) :
    text = [] ∨ (∃ rest, text = '\n' :: rest) ∨ breakBefore text = '\n' :: text := by
  cases text with
  | nil => exact Or.inl rfl
  | cons c rest =>
      by_cases hc : c = '\n'
      · exact Or.inr (Or.inl ⟨rest, by rw [hc]⟩)
      · exact Or.inr (Or.inr (breakBefore_of_ne (by simp) (by simpa using hc)))

@[simp]
theorem breakBefore_breakBefore (text : Text) :
    breakBefore (breakBefore text) = breakBefore text := by
  rcases breakBefore_cases text with rfl | ⟨rest, rfl⟩ | h
  · rfl
  · simp
  · rw [h, breakBefore_lineFeed]

section Condense

variable {c : Char} {text : Text}

@[simp]
theorem condense_nil : condense [] = [] := rfl

theorem trimLineBreak_of_mem {line : Text} (h : line ∈ linesInclusive text)
    (hc : isLineBreak c = false) : trimLineBreak (c :: line) = c :: trimLineBreak line := by
  obtain ⟨body, ending, rfl, hbody, hending⟩ :=
    exists_ending_of_line ((linesInclusive_chain text).1 line h)
  rw [← List.cons_append, trimLineBreak_append (List.forall_mem_cons.mpr ⟨hc, hbody⟩) hending,
    trimLineBreak_append hbody hending]

theorem condense_cons (hc : isLineBreak c = false) (text : Text) :
    condense (c :: text) = c :: condense text := by
  have hplain : ∀ next, endsLine c next = false := by
    intro next
    rw [endsLine, hc, Bool.false_and]
  rw [condense, condense, lines, lines, linesInclusive_cons]
  cases hparts : linesInclusive text with
  | nil =>
      have hone : trimLineBreak [c] = [c] := by
        simpa using trimLineBreak_append (List.forall_mem_singleton.mpr hc) (Or.inl rfl)
      simp [consLine, hone]
  | cons next rest =>
      have hmem : next ∈ linesInclusive text := hparts ▸ List.mem_cons_self
      simp [consLine, hplain, trimLineBreak_of_mem hmem hc]

theorem trimLineBreak_of_isLineBreak (hc : isLineBreak c = true) : trimLineBreak [c] = [] := by
  rw [← List.nil_append [c]]
  exact trimLineBreak_append (by simp) (Or.inr (Or.inr ⟨c, hc, rfl⟩))

/-- The first line of a text that begins with a line feed is empty. -/
theorem linesInclusive_lineFeed (text : Text) :
    linesInclusive ('\n' :: text) = ['\n'] :: linesInclusive text := by
  rw [← List.singleton_append, linesInclusive_append, linesInclusive_singleton,
    List.singleton_append]
  exact Or.inr (Or.inr ⟨rfl, by simp⟩)

theorem condense_cons_of_break (hc : isLineBreak c = true) (text : Text) :
    condense (c :: text) = breakBefore (condense text) := by
  by_cases hpair : c = '\r' ∧ text.head? = some '\n'
  · -- The two characters of one ending.
    obtain ⟨rfl, hhead⟩ := hpair
    obtain ⟨rest, rfl⟩ : ∃ rest, text = '\n' :: rest := List.head?_eq_some_iff.mp hhead
    have hone : linesInclusive ('\r' :: '\n' :: rest) = ['\r', '\n'] :: linesInclusive rest := by
      rw [linesInclusive_cons, linesInclusive_lineFeed]
      rfl
    have hfront : trimLineBreak ['\r', '\n'] = trimLineBreak ['\n'] := rfl
    have hnil : trimLineBreak ['\n'] = [] := rfl
    simp only [condense, lines, hone, linesInclusive_lineFeed, List.map_cons, hfront, hnil,
      List.foldr_cons, List.nil_append, breakBefore_breakBefore]
  · have hone : linesInclusive (c :: text) = [c] :: linesInclusive text := by
      rw [← List.singleton_append, linesInclusive_append, linesInclusive_singleton,
        List.singleton_append]
      exact Or.inr (Or.inr ⟨hc, by simpa using hpair⟩)
    simp only [condense, lines, hone, List.map_cons, trimLineBreak_of_isLineBreak hc,
      List.foldr_cons, List.nil_append]

/-- Behind a character that ends no line, condensed text goes on with the condensed rest. -/
theorem condense_eq_cons_iff (hc : isLineBreak c = false) {rest : Text} :
    condense text = c :: rest ↔ ∃ back, text = c :: back ∧ condense back = rest := by
  constructor
  · intro h
    cases text with
    | nil => cases h
    | cons d back =>
        cases hd : isLineBreak d with
        | false =>
            rw [condense_cons hd, List.cons.injEq] at h
            exact ⟨back, by rw [h.1], h.2⟩
        | true =>
            -- Behind a break stands a line feed, or nothing.
            have hne : c ≠ '\n' := by
              rintro rfl
              cases hc
            rw [condense_cons_of_break hd] at h
            rcases breakBefore_cases (condense back) with hnil | ⟨more, hmore⟩ | hfeed
            · rw [hnil] at h
              cases h
            · rw [hmore, breakBefore_lineFeed, List.cons.injEq] at h
              exact absurd h.1.symm hne
            · rw [hfeed, List.cons.injEq] at h
              exact absurd h.1.symm hne
  · rintro ⟨back, rfl, rfl⟩
    exact condense_cons hc back

theorem condense_breakBefore (text : Text) :
    condense (breakBefore text) = breakBefore (condense text) := by
  have hfeed : isLineBreak '\n' = true := rfl
  rcases breakBefore_cases text with rfl | ⟨rest, rfl⟩ | h
  · rfl
  · rw [breakBefore_lineFeed, condense_cons_of_break hfeed, breakBefore_breakBefore]
  · rw [h, condense_cons_of_break hfeed]

theorem condense_condense (text : Text) : condense (condense text) = condense text := by
  induction text with
  | nil => rfl
  | cons c text ih =>
      cases hc : isLineBreak c with
      | false => rw [condense_cons hc, condense_cons hc, ih]
      | true => rw [condense_cons_of_break hc, condense_breakBefore, ih]

end Condense

section FullLines

theorem lines_line_append {line : Text} (h : ∀ c ∈ line, isLineBreak c = false) (rest : Text) :
    lines (line ++ '\n' :: rest) = line :: lines rest := by
  have hbreak : rest = [] ∨ line ++ ['\n'] = [] ∨ BreakBetween (line ++ ['\n']) rest := by
    refine Or.inr (Or.inr ?_)
    rw [BreakBetween, EndsInBreak, List.getLast?_concat]
    exact ⟨rfl, by simp⟩
  rw [List.append_cons, lines, linesInclusive_append hbreak, linesInclusive_line '\n' h,
    List.map_append, List.map_singleton, trimLineBreak_append h (Or.inr (Or.inr ⟨'\n', rfl, rfl⟩))]
  rfl

theorem fullLines_plain {line : Text} (h : ∀ c ∈ line, isLineBreak c = false) :
    fullLines line = [line].filter (· ≠ []) := by
  by_cases hnil : line = []
  · rw [hnil]
    rfl
  · rw [fullLines, lines, linesInclusive_of_plain hnil h, List.map_singleton]
    have htrim := trimLineBreak_append h (Or.inl rfl)
    rw [List.append_nil] at htrim
    rw [htrim]

/-- Condensed text has the same lines, empty ones aside. -/
theorem fullLines_condense (text : Text) : fullLines (condense text) = fullLines text := by
  have hplain : ∀ line ∈ lines text, ∀ c ∈ line, isLineBreak c = false :=
    fun line hline => isLineBreak_of_mem_lines hline
  rw [condense, fullLines.eq_def text]
  generalize lines text = parts at hplain
  induction parts with
  | nil => rfl
  | cons line parts ih =>
      obtain ⟨hline, hparts⟩ := List.forall_mem_cons.mp hplain
      have hrest := ih hparts
      rw [List.foldr_cons, ← List.singleton_append, List.filter_append, ← hrest]
      generalize parts.foldr (fun line rest => line ++ breakBefore rest) [] = rest
      have hfeed : ∀ rest, fullLines (line ++ '\n' :: rest) =
          [line].filter (· ≠ []) ++ fullLines rest := by
        intro rest
        rw [fullLines, lines_line_append hline, ← List.singleton_append, List.filter_append]
        rfl
      rcases breakBefore_cases rest with rfl | ⟨more, rfl⟩ | h
      · rw [breakBefore_nil, List.append_nil, fullLines_plain hline]
        exact (List.append_nil _).symm
      · have hempty : fullLines ('\n' :: more) = fullLines more := by
          have hmore : lines ('\n' :: more) = [] :: lines more :=
            lines_line_append (List.forall_mem_nil _) more
          rw [fullLines, hmore, List.filter_cons_of_neg (by simp)]
          rfl
        rw [breakBefore_lineFeed, hfeed, hempty]
      · rw [h, hfeed]

end FullLines

end TreeFold.Text
