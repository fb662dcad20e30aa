import Mathlib.Data.List.Infix
import TreeFold.FileSystem.Read
import TreeFold.Proofs.Text.Decomposition
import TreeFold.Proofs.Text.Utf8

/-!
# Counting lines on bytes

The bytes of a text hold a line feed for each line that ends in one, and no others. So the count of
the lines on the bytes misses just the lines that another break ends, the last one aside.
-/

namespace TreeFold.Text

open FileSystem (lineFeed countLineFeeds)

variable {text line : Text}

section Bytes

/-- The bytes of a character are the character itself or no ASCII. -/
theorem toNat_of_mem_encodeChar {c : Char} {byte : UInt8} (h : byte ∈ encodeChar c) :
    byte.toNat = c.toNat ∨ 0x80 ≤ byte.toNat := by
  have hvalid := toNat_valid c
  rw [encodeChar] at h
  split_ifs at h <;> simp only [List.mem_cons, List.not_mem_nil, or_false] at h
  · left
    rw [h, toNat_ofNat_of_lt (by omega)]
  · right
    rcases h with rfl | rfl <;> rw [toNat_ofNat_of_lt (by omega)] <;> omega
  · right
    rcases h with rfl | rfl | rfl <;> rw [toNat_ofNat_of_lt (by omega)] <;> omega
  · right
    rcases h with rfl | rfl | rfl | rfl <;> rw [toNat_ofNat_of_lt (by omega)] <;> omega

theorem encodeChar_lineFeed : encodeChar '\n' = [lineFeed] := by decide

theorem lineFeed_not_mem_encodeChar {c : Char} (hc : c ≠ '\n') : lineFeed ∉ encodeChar c := by
  intro hmem
  rcases toNat_of_mem_encodeChar hmem with hsame | hlarge
  · exact hc (Char.toNat_inj.mp hsame.symm)
  · exact absurd hlarge (by decide)

theorem encodeChar_ne_nil (c : Char) : encodeChar c ≠ [] := by
  rw [encodeChar]
  split_ifs <;> simp

theorem encodeUtf8_eq_nil : encodeUtf8 text = [] ↔ text = [] := by
  cases text with
  | nil => simp [encodeUtf8]
  | cons c text => simp [encodeUtf8_cons, encodeChar_ne_nil]

theorem countP_encodeUtf8 (text : Text) :
    (encodeUtf8 text).countP (· = lineFeed) = text.count '\n' := by
  induction text with
  | nil => rfl
  | cons c text ih =>
      rw [encodeUtf8_cons, List.countP_append, ih]
      by_cases hc : c = '\n'
      · rw [hc, encodeChar_lineFeed, List.count_cons_self, Nat.add_comm]
        rfl
      · rw [List.count_cons_of_ne hc, List.countP_eq_zero.mpr, Nat.zero_add]
        intro byte hbyte hsame
        exact lineFeed_not_mem_encodeChar hc (of_decide_eq_true hsame ▸ hbyte)

theorem getLast?_encodeUtf8 (text : Text) :
    (encodeUtf8 text).getLast? = some lineFeed ↔ text.getLast? = some '\n' := by
  rcases List.eq_nil_or_concat text with rfl | ⟨front, c, rfl⟩
  · simp [encodeUtf8]
  · have hbytes : encodeUtf8 [c] = encodeChar c := List.append_nil _
    rw [List.concat_eq_append, encodeUtf8_append, hbytes,
      List.getLast?_append_of_ne_nil _ (encodeChar_ne_nil c), List.getLast?_concat,
      Option.some.injEq]
    by_cases hc : c = '\n'
    · rw [hc, encodeChar_lineFeed]
      exact iff_of_true rfl rfl
    · exact iff_of_false (fun hlast => lineFeed_not_mem_encodeChar hc (List.mem_of_getLast? hlast))
        hc

/-- The line feeds are counted, and one more when the text does not end in one. -/
theorem countLineFeeds_encodeUtf8 (hne : text ≠ []) :
    countLineFeeds (encodeUtf8 text) =
      text.count '\n' + if text.getLast? = some '\n' then 0 else 1 := by
  rw [countLineFeeds, if_neg (mt encodeUtf8_eq_nil.mp hne), countP_encodeUtf8]
  simp only [getLast?_encodeUtf8]
  split_ifs <;> rfl

end Bytes

section Lines

/-- A line holds a line feed only at its end. -/
theorem count_line (hline : linesInclusive line = [line]) :
    line.count '\n' = if line.getLast? = some '\n' then 1 else 0 := by
  obtain ⟨run, ending, rfl, hrun, hending⟩ := exists_ending_of_line hline
  have hfree : '\n' ∉ run := fun hmem => absurd (hrun '\n' hmem) (by decide)
  rw [List.count_append, List.count_eq_zero.mpr hfree, Nat.zero_add]
  rcases hending with rfl | rfl | ⟨b, -, rfl⟩
  · rw [List.append_nil, if_neg fun hlast => hfree (List.mem_of_getLast? hlast)]
    rfl
  · rw [List.getLast?_append_of_ne_nil _ (by simp)]
    rfl
  · rw [List.getLast?_concat, List.count_singleton]
    simp

/-- Whether the line ends in a line feed. -/
def endsInLineFeed (line : Text) : Bool :=
  line.getLast? = some '\n'

theorem count_flatten_lines {parts : List Text} (h : ∀ part ∈ parts, linesInclusive part = [part]) :
    parts.flatten.count '\n' = parts.countP endsInLineFeed := by
  induction parts with
  | nil => rfl
  | cons part parts ih =>
      obtain ⟨hpart, hrest⟩ := List.forall_mem_cons.mp h
      rw [List.flatten_cons, List.count_append, count_line hpart, ih hrest, List.countP_cons,
        Nat.add_comm]
      simp [endsInLineFeed]

/-- How many lines before the last one end in another break. -/
def otherwiseEnded (text : Text) : Nat :=
  (linesInclusive text).dropLast.countP fun line => !endsInLineFeed line

/-- A text has the lines that are counted on its bytes, and those before the last one that another
break ends. -/
theorem length_linesInclusive (text : Text) :
    (linesInclusive text).length = countLineFeeds (encodeUtf8 text) + otherwiseEnded text := by
  by_cases htext : text = []
  · rw [htext]
    rfl
  have hne := linesInclusive_ne_nil htext
  have hcount := count_flatten_lines (linesInclusive_chain text).1
  have hlast := getLast?_getLast_linesInclusive hne
  rw [flatten_linesInclusive] at hcount
  obtain ⟨before, last, hparts⟩ := (List.eq_nil_or_concat _).resolve_left hne
  rw [List.concat_eq_append] at hparts
  simp only [hparts, List.getLast_concat] at hcount hlast
  rw [countLineFeeds_encodeUtf8 htext, hcount, ← hlast, otherwiseEnded, hparts,
    List.dropLast_concat, List.length_append, List.countP_append, List.countP_singleton,
    List.length_singleton, List.length_eq_countP_add_countP endsInLineFeed]
  have hends : endsInLineFeed last = true ↔ last.getLast? = some '\n' := decide_eq_true_iff
  simp only [hends]
  split_ifs <;> simp <;> omega

/-- Every break in the text is a line feed, or a carriage return with one. -/
def BreaksAtLineFeeds (text : Text) : Prop :=
  ∀ c back, c :: back <:+ text → isLineBreak c = true →
    c = '\n' ∨ c = '\r' ∧ back.head? = some '\n'

instance (text : Text) : Decidable (BreaksAtLineFeeds text) :=
  decidable_of_iff
    (∀ rest ∈ text.tails, rest.head?.all fun c => isLineBreak c →
      c = '\n' ∨ c = '\r' ∧ rest.tail.head? = some '\n')
    (by
      simp only [List.mem_tails, Option.all_eq_true, decide_eq_true_eq]
      constructor
      · exact fun h c back hback => h (c :: back) hback c rfl
      · intro h rest hrest c hc
        obtain ⟨back, rfl⟩ := List.head?_eq_some_iff.mp hc
        exact h c back hrest)

theorem exists_next_of_mem_dropLast {α : Type*} {part : α} {parts : List α}
    (h : part ∈ parts.dropLast) : ∃ front next more, parts = front ++ part :: next :: more := by
  obtain ⟨front, middle, hfront⟩ := List.append_of_mem h
  have hne : parts ≠ [] := by
    rintro rfl
    cases h
  obtain ⟨next, more, hnext⟩ :=
    List.exists_cons_of_ne_nil (List.concat_ne_nil (parts.getLast hne) middle)
  refine ⟨front, next, more, ?_⟩
  conv => lhs; rw [← List.dropLast_append_getLast hne, hfront]
  rw [← hnext, List.append_assoc, List.cons_append]

theorem otherwiseEnded_eq_zero (h : BreaksAtLineFeeds text) : otherwiseEnded text = 0 := by
  rw [otherwiseEnded, List.countP_eq_zero]
  intro line hline
  -- A line ends between this one and the next, so its last break is not cut in two.
  obtain ⟨front, next, more, hparts⟩ := exists_next_of_mem_dropLast hline
  have hbreak : BreakBetween line next :=
    List.isChain_iff_forall_rel_of_append_cons_cons.mp (linesInclusive_chain text).2 hparts
  have hnext : next ∈ linesInclusive text := hparts ▸ by simp
  obtain ⟨c, hc, hisBreak⟩ := (Option.any_eq_true _ _).mp hbreak.1
  obtain ⟨run, rfl⟩ := List.getLast?_eq_some_iff.mp hc
  have hsuffix : c :: (next ++ more.flatten) <:+ text := by
    refine ⟨front.flatten ++ run, ?_⟩
    rw [← flatten_linesInclusive text, hparts]
    simp
  rcases h c _ hsuffix hisBreak with rfl | ⟨rfl, hhead⟩
  · simp [endsInLineFeed]
  · rw [List.head?_append_of_ne_nil _ (ne_nil_of_mem_linesInclusive hnext)] at hhead
    exact absurd ⟨hc, hhead⟩ hbreak.2

end Lines

end TreeFold.Text
