import Mathlib.Data.List.Chain
import Mathlib.Data.List.TakeWhile
import TreeFold.Text.Line

/-!
# Cutting texts into lines

A list of texts is the list of lines of its concatenation exactly when each member is one line and
each next member begins where a line has ended. Both conditions pass to every part of the list,
so lines that stood together are found again when they are put together alone. A line is a run
without breaks before its ending, and runs joined by line feeds are the lines of what they make.
-/

namespace TreeFold.Text

/-- The text ends in a line break. -/
def EndsInBreak (text : Text) : Prop :=
  text.getLast?.any isLineBreak = true

instance (text : Text) : Decidable (EndsInBreak text) :=
  inferInstanceAs (Decidable (_ = true))

/-- A line ends between the two texts: the first ends in a break that the second does not
complete. -/
def BreakBetween (text next : Text) : Prop :=
  EndsInBreak text ∧ ¬(text.getLast? = some '\r' ∧ next.head? = some '\n')

theorem endsLine_iff {c : Char} {next : Text} :
    endsLine c next = true ↔ BreakBetween [c] next := by
  simp only [endsLine, BreakBetween, EndsInBreak, List.getLast?_singleton, Option.any_some,
    Option.some.injEq, Bool.and_eq_true, Bool.not_eq_true', Bool.and_eq_false_imp,
    decide_eq_true_eq, decide_eq_false_iff_not, not_and]

theorem breakBetween_cons {c : Char} {text next : Text} (h : text ≠ []) :
    BreakBetween (c :: text) next ↔ BreakBetween text next := by
  simp only [BreakBetween, EndsInBreak, List.getLast?_cons_of_ne_nil h]

theorem linesInclusive_eq_nil {text : Text} : linesInclusive text = [] ↔ text = [] := by
  constructor
  · intro h
    rw [← flatten_linesInclusive text, h, List.flatten_nil]
  · rintro rfl
    rfl

theorem linesInclusive_ne_nil {text : Text} (h : text ≠ []) : linesInclusive text ≠ [] :=
  fun hn => h (linesInclusive_eq_nil.mp hn)

theorem linesInclusive_singleton (c : Char) : linesInclusive [c] = [[c]] := rfl

/-- No line is empty. -/
theorem ne_nil_of_mem_linesInclusive {text line : Text} (h : line ∈ linesInclusive text) :
    line ≠ [] := by
  induction text generalizing line with
  | nil => simp at h
  | cons c text ih =>
      rw [linesInclusive_cons] at h
      cases hp : linesInclusive text with
      | nil =>
          rw [hp] at h
          simp only [consLine, List.mem_singleton] at h
          simp [h]
      | cons next rest =>
          rw [hp] at h ih
          by_cases he : endsLine c next
          · simp only [consLine, he, if_true, List.mem_cons] at h
            rcases h with rfl | rfl | h
            · simp
            · exact ih (by simp)
            · exact ih (by simp [h])
          · simp only [consLine, he, Bool.false_eq_true, if_false, List.mem_cons] at h
            rcases h with rfl | h
            · simp
            · exact ih (by simp [h])

/-- The first line of a text begins with the first character of the text. -/
theorem head?_of_linesInclusive_eq_cons {text next : Text} {rest : List Text}
    (h : linesInclusive text = next :: rest) : next.head? = text.head? := by
  have hne : next ≠ [] := ne_nil_of_mem_linesInclusive (h ▸ List.mem_cons_self)
  rw [← flatten_linesInclusive text, h, List.flatten_cons, List.head?_append_of_ne_nil _ hne]

/-- A text whose only break is its last character is one line. -/
theorem linesInclusive_line {body : Text} (b : Char)
    (h : ∀ c ∈ body, isLineBreak c = false) : linesInclusive (body ++ [b]) = [body ++ [b]] := by
  induction body with
  | nil => rfl
  | cons c body ih =>
      have hc : endsLine c (body ++ [b]) = false := by
        simp [endsLine, h c List.mem_cons_self]
      rw [List.cons_append, linesInclusive_cons,
        ih (fun d hd => h d (List.mem_cons_of_mem _ hd))]
      simp [consLine, hc]

/-- A text that ends in a break is cut apart from what follows it. -/
theorem linesInclusive_append {a b : Text} (h : b = [] ∨ a = [] ∨ BreakBetween a b) :
    linesInclusive (a ++ b) = linesInclusive a ++ linesInclusive b := by
  rcases h with rfl | h
  · simp
  induction a with
  | nil => rfl
  | cons c a ih =>
      have hb : BreakBetween (c :: a) b := h.resolve_left (by simp)
      rw [List.cons_append, linesInclusive_cons, linesInclusive_cons]
      by_cases ha : a = []
      · subst ha
        rw [List.nil_append, linesInclusive_nil]
        cases hp : linesInclusive b with
        | nil => rfl
        | cons next rest =>
            have he : endsLine c next = true := by
              apply endsLine_iff.mpr
              refine ⟨hb.1, ?_⟩
              rw [head?_of_linesInclusive_eq_cons hp]
              exact hb.2
            simp [consLine, he]
      · rw [ih (Or.inr ((breakBetween_cons ha).mp hb))]
        obtain ⟨next, rest, hp⟩ := List.exists_cons_of_ne_nil (linesInclusive_ne_nil ha)
        rw [hp]
        by_cases he : endsLine c next <;> simp [consLine, he]

/-- A list is the lines of its concatenation when its members are lines that end one another. -/
theorem linesInclusive_flatten {parts : List Text} (hlines : ∀ p ∈ parts, linesInclusive p = [p])
    (hchain : parts.IsChain BreakBetween) : linesInclusive parts.flatten = parts := by
  induction parts with
  | nil => rfl
  | cons p parts ih =>
      have hrest := ih (fun q hq => hlines q (List.mem_cons_of_mem _ hq)) hchain.tail
      rw [List.flatten_cons, linesInclusive_append, hlines p List.mem_cons_self, hrest]
      · rfl
      · cases parts with
        | nil => exact Or.inl rfl
        | cons next rest =>
            have hb : BreakBetween p next := hchain.rel_head? rfl
            have hne : next ≠ [] := by
              intro hn
              have := hlines next (by simp)
              simp [hn] at this
            refine Or.inr (Or.inr ⟨hb.1, ?_⟩)
            rw [List.flatten_cons, List.head?_append_of_ne_nil _ hne]
            exact hb.2

/-- The lines of a text are single lines that end one another. -/
theorem linesInclusive_chain (text : Text) :
    (∀ p ∈ linesInclusive text, linesInclusive p = [p]) ∧
      (linesInclusive text).IsChain BreakBetween := by
  induction text with
  | nil => simp
  | cons c text ih =>
      rw [linesInclusive_cons]
      cases hp : linesInclusive text with
      | nil => simp [consLine]
      | cons next rest =>
          rw [hp] at ih
          have hne : next ≠ [] := ne_nil_of_mem_linesInclusive (hp ▸ List.mem_cons_self)
          obtain ⟨hlines, hchain⟩ := ih
          by_cases he : endsLine c next
          · simp only [consLine, he, if_true]
            constructor
            · intro p hmem
              rcases List.mem_cons.mp hmem with rfl | hmem
              · exact linesInclusive_singleton c
              · exact hlines p hmem
            · exact List.isChain_cons_cons.mpr ⟨endsLine_iff.mp he, hchain⟩
          · simp only [consLine, he, Bool.false_eq_true, if_false]
            constructor
            · intro p hmem
              rcases List.mem_cons.mp hmem with rfl | hmem
              · rw [linesInclusive_cons, hlines next List.mem_cons_self]
                simp [consLine, he]
              · exact hlines p (List.mem_cons_of_mem _ hmem)
            · apply List.isChain_cons.mpr
              constructor
              · intro q hq
                exact (breakBetween_cons hne).mpr (hchain.rel_head? hq)
              · exact hchain.tail

theorem chain_of_part {parts lines : List Text} (hchain : lines.IsChain BreakBetween)
    (h : parts <:+: lines) : parts.IsChain BreakBetween := by
  obtain ⟨front, rest, rfl⟩ := h
  exact hchain.left_of_append.right_of_append

/-- Lines that stand together in a text are found again when they stand alone. -/
theorem linesInclusive_flatten_of_part {text : Text} {parts : List Text}
    (h : parts <:+: linesInclusive text) : linesInclusive parts.flatten = parts := by
  obtain ⟨hlines, hchain⟩ := linesInclusive_chain text
  exact linesInclusive_flatten (fun p hp => hlines p (h.subset hp)) (chain_of_part hchain h)

/-- Lines that are followed by another one end in a break. -/
theorem endsInBreak_flatten_of_next {text : Text} {parts rest : List Text} {next : Text}
    (hne : parts ≠ []) (h : parts ++ next :: rest <:+: linesInclusive text) :
    EndsInBreak parts.flatten := by
  have hchain := chain_of_part (linesInclusive_chain text).2 h
  have hlast : BreakBetween (parts.getLast hne) next :=
    hchain.rel_getLast_head_of_append hne (List.cons_ne_nil _ _)
  have hmem : parts.getLast hne ≠ [] :=
    ne_nil_of_mem_linesInclusive (h.subset (List.mem_append_left _ (List.getLast_mem hne)))
  rw [← List.dropLast_append_getLast hne, List.flatten_append, List.flatten_singleton,
    EndsInBreak, List.getLast?_append_of_ne_nil _ hmem]
  exact hlast.1

/-- What may stand at the end of a line: nothing, one break, or the two characters of a carriage
return with a line feed. -/
def IsEnding (ending : Text) : Prop :=
  ending = [] ∨ ending = ['\r', '\n'] ∨ ∃ b, isLineBreak b = true ∧ ending = [b]

theorem IsEnding.eq_lineFeed {ending : Text} (h : IsEnding ending)
    (hhead : ending.head? = some '\n') : ending = ['\n'] := by
  rcases h with rfl | rfl | ⟨b, -, rfl⟩
  · cases hhead
  · cases hhead
  · rw [List.head?_singleton, Option.some.injEq] at hhead
    rw [hhead]

theorem IsEnding.isLineBreak {ending : Text} (h : IsEnding ending) :
    ∀ c ∈ ending, isLineBreak c = true := by
  rcases h with rfl | rfl | ⟨b, hb, rfl⟩
  · simp
  · rw [List.forall_mem_cons, List.forall_mem_singleton]
    exact ⟨rfl, rfl⟩
  · simpa using hb

/-- One line is a run without breaks and an ending. -/
theorem exists_ending_of_line {line : Text} (h : linesInclusive line = [line]) :
    ∃ body ending, line = body ++ ending ∧ (∀ c ∈ body, isLineBreak c = false) ∧
      IsEnding ending := by
  induction line with
  | nil => cases h
  | cons c line ih =>
      by_cases hne : line = []
      · subst hne
        cases hc : isLineBreak c with
        | true => exact ⟨[], [c], rfl, by simp, Or.inr (Or.inr ⟨c, hc, rfl⟩)⟩
        | false => exact ⟨[c], [], rfl, by simpa using hc, Or.inl rfl⟩
      obtain ⟨next, rest, hp⟩ := List.exists_cons_of_ne_nil (linesInclusive_ne_nil hne)
      rw [linesInclusive_cons, hp] at h
      by_cases he : endsLine c next
      · simp [consLine, he] at h
      · simp only [consLine, he, Bool.false_eq_true, if_false, List.cons.injEq, true_and] at h
        obtain ⟨rfl, rfl⟩ := h
        obtain ⟨body, ending, hline, hbody, hending⟩ := ih hp
        cases hc : isLineBreak c with
        | false =>
            refine ⟨c :: body, ending, by rw [hline, List.cons_append], ?_, hending⟩
            exact List.forall_mem_cons.mpr ⟨hc, hbody⟩
        | true =>
            -- Behind a break the line goes on only between the two characters of one ending.
            have hpair : c = '\r' ∧ next.head? = some '\n' := by
              simpa [endsLine, hc] using he
            obtain ⟨rfl, hhead⟩ := hpair
            refine ⟨[], '\r' :: next, rfl, by simp, Or.inr (Or.inl ?_)⟩
            cases body with
            | nil =>
                rw [List.nil_append] at hline
                rw [hline, hending.eq_lineFeed (hline ▸ hhead)]
            | cons d body =>
                rw [hline, List.cons_append, List.head?_cons, Option.some.injEq] at hhead
                have hd := hbody d List.mem_cons_self
                rw [hhead] at hd
                cases hd

/-- Without its ending, a line is the run before it. -/
theorem trimLineBreak_append {body ending : Text} (hbody : ∀ c ∈ body, isLineBreak c = false)
    (hending : IsEnding ending) : trimLineBreak (body ++ ending) = body := by
  have hlast : ∀ c before, body.reverse = c :: before → isLineBreak c = false := by
    intro c before hrev
    apply hbody c
    rw [← List.mem_reverse, hrev]
    exact List.mem_cons_self
  rcases hending with rfl | rfl | ⟨b, hb, rfl⟩
  · rw [List.append_nil, trimLineBreak]
    split
    · rename_i hrev
      cases hlast _ _ hrev
    · rename_i hrev
      rw [hlast _ _ hrev, if_neg (by decide)]
    · rfl
  · simp [trimLineBreak]
  · rw [trimLineBreak, List.reverse_append, List.reverse_singleton, List.singleton_append]
    split
    · rename_i hrev
      cases hlast _ _ (List.cons.inj hrev).2
    · rename_i hrev
      obtain ⟨rfl, rfl⟩ := List.cons.inj hrev
      rw [if_pos hb, List.reverse_reverse]
    · rename_i hrev
      cases hrev

/-- The lines of a text hold no line break. -/
theorem isLineBreak_of_mem_lines {text line : Text} (h : line ∈ lines text) :
    ∀ c ∈ line, isLineBreak c = false := by
  obtain ⟨whole, hmem, rfl⟩ := List.mem_map.mp h
  obtain ⟨body, ending, rfl, hbody, hending⟩ :=
    exists_ending_of_line ((linesInclusive_chain text).1 whole hmem)
  rw [trimLineBreak_append hbody hending]
  exact hbody

/-- A text without breaks is one line. -/
theorem linesInclusive_of_plain {text : Text} (hne : text ≠ [])
    (h : ∀ c ∈ text, isLineBreak c = false) : linesInclusive text = [text] := by
  rw [← List.dropLast_append_getLast hne]
  exact linesInclusive_line _ fun c hc => h c (List.dropLast_subset _ hc)

/-- Texts without breaks, joined by line feeds, are the lines of the joined text. -/
theorem lines_joinWith {texts : List Text}
    (h : ∀ text ∈ texts, text ≠ [] ∧ ∀ c ∈ text, isLineBreak c = false) :
    lines (joinWith ['\n'] texts) = texts := by
  induction texts with
  | nil => rfl
  | cons text texts ih =>
      have hrest := ih fun t ht => h t (List.mem_cons_of_mem _ ht)
      obtain ⟨hne, hplain⟩ := h text List.mem_cons_self
      cases texts with
      | nil =>
          rw [joinWith, List.intercalate_singleton, lines, linesInclusive_of_plain hne hplain,
            List.map_singleton]
          exact congrArg ([·]) (by simpa using trimLineBreak_append hplain (Or.inl rfl))
      | cons next texts =>
          have hbreak : BreakBetween (text ++ ['\n']) (joinWith ['\n'] (next :: texts)) := by
            rw [BreakBetween, EndsInBreak, List.getLast?_concat]
            exact ⟨rfl, fun hcr => absurd hcr.1 (by decide)⟩
          have hjoin : joinWith ['\n'] (text :: next :: texts) =
              text ++ ['\n'] ++ joinWith ['\n'] (next :: texts) := List.intercalate_cons_cons
          rw [hjoin, lines, linesInclusive_append (Or.inr (Or.inr hbreak)),
            linesInclusive_line '\n' hplain,
            List.map_append, List.map_singleton,
            trimLineBreak_append hplain (Or.inr (Or.inr ⟨'\n', rfl, rfl⟩))]
          exact congrArg (text :: ·) hrest

/-- A line with its break is a line without it and an ending. -/
theorem exists_line_of_mem_linesInclusive {text whole : Text} (h : whole ∈ linesInclusive text) :
    ∃ line ending, whole = line ++ ending ∧ line ∈ lines text ∧ IsEnding ending := by
  obtain ⟨body, ending, rfl, hbody, hending⟩ :=
    exists_ending_of_line ((linesInclusive_chain text).1 whole h)
  refine ⟨body, ending, rfl, ?_, hending⟩
  exact List.mem_map.mpr ⟨_, h, trimLineBreak_append hbody hending⟩

/-- The line without the spaces and tabs at its start. -/
def unindented (line : Text) : Text :=
  line.dropWhile fun c => c = ' ' || c = '\t'

theorem exists_indent (line : Text) :
    ∃ indent, (∀ c ∈ indent, c = ' ' ∨ c = '\t') ∧ line = indent ++ unindented line := by
  refine ⟨line.takeWhile fun c => c = ' ' || c = '\t', ?_, List.takeWhile_append_dropWhile.symm⟩
  intro c hc
  simpa using List.all_eq_true.mp List.all_takeWhile c hc

theorem unindented_append_of_nil {line : Text} (h : unindented line = []) (more : Text) :
    unindented (line ++ more) = unindented more := by
  rw [unindented, List.dropWhile_append, if_pos]
  · rfl
  · simpa [unindented] using h

theorem unindented_append {line : Text} (h : unindented line ≠ []) (more : Text) :
    unindented (line ++ more) = unindented line ++ more := by
  rw [unindented, List.dropWhile_append, if_neg]
  · rfl
  · simpa [unindented] using h

end TreeFold.Text
