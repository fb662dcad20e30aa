import Mathlib.Data.List.Forall2
import TreeFold.Proofs.Text.Line

/-!
# The one way to cut a text into lines

A text can be cut into runs without line breaks, each followed by the ending of its line. Its lines
are the only such cut that keeps every carriage return together with its line feed. So putting two
texts together puts their lines together just where a line ends between them.
-/

namespace TreeFold.Text

/-- The run has no line breaks, and the line is the run and an ending. -/
def IsRunOf (run line : Text) : Prop :=
  (∀ c ∈ run, isLineBreak c = false) ∧ ∃ ending, IsEnding ending ∧ line = run ++ ending

/-- The text is cut into lines, none of them empty. -/
structure IsCut (text : Text) (parts : List Text) : Prop where
  flatten : parts.flatten = text
  ne_nil : ∀ part ∈ parts, part ≠ []
  /-- Each part is a run without breaks and an ending, which only the last part may lack. -/
  ended : ∀ front part back, parts = front ++ part :: back →
    ∃ run ending, (∀ c ∈ run, isLineBreak c = false) ∧ IsEnding ending ∧ part = run ++ ending ∧
      (ending = [] → back = [])
  /-- No carriage return is parted from its line feed. -/
  together : parts.IsChain fun part next => ¬(part.getLast? = some '\r' ∧ next.head? = some '\n')

variable {text run line ending : Text} {parts : List Text}

/-- A run without breaks in front of a line makes it one longer line. -/
theorem linesInclusive_run_append (hrun : ∀ c ∈ run, isLineBreak c = false)
    (hline : linesInclusive line = [line]) : linesInclusive (run ++ line) = [run ++ line] := by
  induction run with
  | nil => exact hline
  | cons c run ih =>
      obtain ⟨hc, hrest⟩ := List.forall_mem_cons.mp hrun
      rw [List.cons_append, linesInclusive_cons, ih hrest]
      simp [consLine, endsLine, hc]

/-- A run and an ending are one line. -/
theorem linesInclusive_of_ended (hrun : ∀ c ∈ run, isLineBreak c = false)
    (hending : IsEnding ending) (hne : run ++ ending ≠ []) :
    linesInclusive (run ++ ending) = [run ++ ending] := by
  rcases hending with rfl | rfl | ⟨b, -, rfl⟩
  · rw [List.append_nil] at hne ⊢
    exact linesInclusive_of_plain hne hrun
  · exact linesInclusive_run_append hrun rfl
  · exact linesInclusive_line b hrun

/-- A run with an ending that is not empty ends in a break, and without one it does not. -/
theorem endsInBreak_append_iff (hrun : ∀ c ∈ run, isLineBreak c = false)
    (hending : IsEnding ending) : EndsInBreak (run ++ ending) ↔ ending ≠ [] := by
  constructor
  · rintro h rfl
    obtain ⟨c, hlast, hc⟩ := (Option.any_eq_true _ _).mp h
    rw [List.append_nil] at hlast
    rw [hrun c (List.mem_of_getLast? hlast)] at hc
    cases hc
  · intro hne
    rw [EndsInBreak, List.getLast?_append_of_ne_nil _ hne, List.getLast?_eq_some_getLast hne]
    exact hending.isLineBreak _ (List.getLast_mem hne)

namespace IsCut

theorem linesInclusive_part (h : IsCut text parts) :
    ∀ part ∈ parts, linesInclusive part = [part] := by
  intro part hpart
  obtain ⟨front, back, hparts⟩ := List.append_of_mem hpart
  obtain ⟨run, ending, hrun, hending, rfl, -⟩ := h.ended front part back hparts
  exact linesInclusive_of_ended hrun hending (h.ne_nil _ hpart)

/-- A line ends between any two neighbours of a cut. -/
theorem chain (h : IsCut text parts) : parts.IsChain BreakBetween := by
  rw [List.isChain_iff_forall_rel_of_append_cons_cons]
  intro part next front back hparts
  obtain ⟨run, ending, hrun, hending, rfl, hlast⟩ := h.ended front part (next :: back) hparts
  have hne : ending ≠ [] := fun hnil => List.cons_ne_nil next back (hlast hnil)
  exact ⟨(endsInBreak_append_iff hrun hending).mpr hne,
    List.isChain_iff_forall_rel_of_append_cons_cons.mp h.together hparts⟩

/-- The parts of a cut are the lines. -/
theorem eq_linesInclusive (h : IsCut text parts) : parts = linesInclusive text := by
  rw [← h.flatten]
  exact (linesInclusive_flatten h.linesInclusive_part h.chain).symm

end IsCut

/-- The lines of a text are a cut of it. -/
theorem isCut_linesInclusive (text : Text) : IsCut text (linesInclusive text) := by
  obtain ⟨hlines, hchain⟩ := linesInclusive_chain text
  refine ⟨flatten_linesInclusive text, fun part hpart => ne_nil_of_mem_linesInclusive hpart, ?_,
    hchain.imp fun part next h => h.2⟩
  intro front part back hparts
  obtain ⟨run, ending, rfl, hrun, hending⟩ :=
    exists_ending_of_line (hlines part (hparts ▸ by simp))
  refine ⟨run, ending, hrun, hending, rfl, fun hnil => ?_⟩
  -- A line without an ending has no next one, since a line ends between the two.
  cases back with
  | nil => rfl
  | cons next back =>
      have hbreak := List.isChain_iff_forall_rel_of_append_cons_cons.mp hchain hparts
      exact absurd hnil ((endsInBreak_append_iff hrun hending).mp hbreak.1)

theorem isRunOf_iff (hline : linesInclusive line = [line]) :
    IsRunOf run line ↔ run = trimLineBreak line := by
  constructor
  · rintro ⟨hrun, ending, hending, rfl⟩
    exact (trimLineBreak_append hrun hending).symm
  · rintro rfl
    obtain ⟨run, ending, rfl, hrun, hending⟩ := exists_ending_of_line hline
    rw [trimLineBreak_append hrun hending]
    exact ⟨hrun, ending, hending, rfl⟩

/-- The runs of the lines are the lines without their breaks. -/
theorem forall₂_isRunOf_iff (text : Text) (runs : List Text) :
    List.Forall₂ IsRunOf runs (linesInclusive text) ↔ runs = lines text := by
  have hlines := (linesInclusive_chain text).1
  generalize hparts : linesInclusive text = parts at hlines
  rw [lines, hparts]
  clear hparts
  induction parts generalizing runs with
  | nil => simp
  | cons part parts ih =>
      obtain ⟨hpart, hrest⟩ := List.forall_mem_cons.mp hlines
      rw [List.map_cons]
      cases runs with
      | nil => simp
      | cons run runs =>
          rw [List.forall₂_cons, List.cons.injEq]
          exact and_congr (isRunOf_iff hpart) (ih runs hrest)

/-- The last line of a text ends as the text does. -/
theorem getLast?_getLast_linesInclusive (h : linesInclusive text ≠ []) :
    ((linesInclusive text).getLast h).getLast? = text.getLast? := by
  have hne := ne_nil_of_mem_linesInclusive (List.getLast_mem h)
  conv => rhs; rw [← flatten_linesInclusive text, ← List.dropLast_append_getLast h]
  rw [List.flatten_append, List.flatten_singleton, List.getLast?_append_of_ne_nil _ hne]

/-- The lines of two texts stand side by side just where a line ends between the texts. -/
theorem linesInclusive_append_iff (text more : Text) :
    linesInclusive (text ++ more) = linesInclusive text ++ linesInclusive more ↔
      more = [] ∨ text = [] ∨ BreakBetween text more := by
  refine ⟨fun h => ?_, linesInclusive_append⟩
  by_cases hmore : more = []
  · exact Or.inl hmore
  by_cases htext : text = []
  · exact Or.inr (Or.inl htext)
  have hchain := (linesInclusive_chain (text ++ more)).2
  rw [h] at hchain
  have hbreak := hchain.rel_getLast_head_of_append (linesInclusive_ne_nil htext)
    (linesInclusive_ne_nil hmore)
  obtain ⟨next, rest, hparts⟩ := List.exists_cons_of_ne_nil (linesInclusive_ne_nil hmore)
  rw [BreakBetween, EndsInBreak, getLast?_getLast_linesInclusive] at hbreak
  simp only [hparts, List.head_cons, head?_of_linesInclusive_eq_cons hparts] at hbreak
  exact Or.inr (Or.inr hbreak)

/-- The lines of a text are the only way to cut it into lines, and the lines without their breaks
are the only runs of this cut. The lines of two texts stand side by side in the lines of both
together just when one text is empty or a line ends between the two. -/
theorem linesInclusive_unique (text : Text) :
    (∀ parts, IsCut text parts ↔ parts = linesInclusive text) ∧
      (∀ runs, List.Forall₂ IsRunOf runs (linesInclusive text) ↔ runs = lines text) ∧
      ∀ more, linesInclusive (text ++ more) = linesInclusive text ++ linesInclusive more ↔
        more = [] ∨ text = [] ∨ BreakBetween text more := by
  refine ⟨fun parts => ⟨IsCut.eq_linesInclusive, ?_⟩, forall₂_isRunOf_iff text,
    linesInclusive_append_iff text⟩
  rintro rfl
  exact isCut_linesInclusive text

end TreeFold.Text
