import TreeFold.Proofs.Comment
import TreeFold.Proofs.Text.Condensed

/-!
# Removing documentation blocks

A block that is opened goes up to the first closing token, and when there is none it stays with all
that follows. The tokens hold no line breaks, so condensing the breaks of a text first removes the
same blocks: what stripping makes of a text depends on its lines only.
-/

namespace TreeFold.Comment

open Text

/-- The text behind the first closing token. -/
def afterClose? : Text → Option Text
  | [] => none
  | '*' :: '/' :: after => some after
  | _ :: rest => afterClose? rest

section Equations

theorem scanBlocks_append (kept extra : Text) (state : Option Text) (text : Text) :
    scanBlocks (kept ++ extra) state text = extra.reverse ++ scanBlocks kept state text := by
  fun_induction scanBlocks kept state text with
  | case1 kept => simp [scanBlocks]
  | case2 kept body => simp [scanBlocks]
  | case3 kept body ih => rw [scanBlocks, ih]
  | case4 kept c rest hopen ih =>
      rw [scanBlocks, ← List.cons_append, ih]
      exact hopen
  | case5 kept body after ih => rw [scanBlocks, ih]
  | case6 kept body c rest hclose ih =>
      rw [scanBlocks, ih]
      exact hclose

/-- Outside a block, what was kept stands in front of what is kept of the rest. -/
theorem scanBlocks_none (kept text : Text) :
    scanBlocks kept none text = kept.reverse ++ removeBlocks text :=
  scanBlocks_append [] kept none text

/-- Inside a block, scanning goes on behind the closing token, or the block is put back. -/
theorem scanBlocks_some (kept body text : Text) :
    scanBlocks kept (some body) text =
      match afterClose? text with
      | some after => kept.reverse ++ removeBlocks after
      | none => kept.reverse ++ '/' :: '*' :: '*' :: body := by
  fun_induction afterClose? text with
  | case1 => rfl
  | case2 after => rw [scanBlocks, scanBlocks_none]
  | case3 c rest hclose ih =>
      rw [scanBlocks, ih]
      exact hclose

@[simp]
theorem removeBlocks_nil : removeBlocks [] = [] := rfl

theorem removeBlocks_open (body : Text) :
    removeBlocks ('/' :: '*' :: '*' :: body) =
      match afterClose? body with
      | some after => removeBlocks after
      | none => '/' :: '*' :: '*' :: body := by
  rw [removeBlocks, scanBlocks, scanBlocks_some]
  rfl

theorem removeBlocks_cons {c : Char} {rest : Text}
    (h : ∀ body, c :: rest ≠ '/' :: '*' :: '*' :: body) :
    removeBlocks (c :: rest) = c :: removeBlocks rest := by
  rw [removeBlocks, scanBlocks, scanBlocks_none]
  · rfl
  · intro body hc hrest
    exact h body (by rw [hc, hrest])

/-- What stands behind the first closing token is shorter. -/
theorem length_of_afterClose? {text after : Text} (h : afterClose? text = some after) :
    after.length < text.length := by
  fun_induction afterClose? text with
  | case1 => cases h
  | case2 rest =>
      obtain rfl := Option.some.inj h
      simp only [List.length_cons]
      omega
  | case3 c rest hclose ih => exact (ih h).trans (Nat.lt_succ_self _)

end Equations

section Condensed

/-- The characters of the tokens end no line. -/
theorem isLineBreak_slash : isLineBreak '/' = false := rfl

theorem isLineBreak_star : isLineBreak '*' = false := rfl

theorem afterClose?_cons_of_ne {c : Char} (hc : c ≠ '*') (rest : Text) :
    afterClose? (c :: rest) = afterClose? rest := by
  rw [afterClose?]
  intro after hstar
  exact absurd hstar hc

theorem afterClose?_breakBefore (text : Text) :
    afterClose? (breakBefore text) = afterClose? text := by
  rcases breakBefore_cases text with rfl | ⟨rest, rfl⟩ | h
  · rfl
  · rw [breakBefore_lineFeed]
  · rw [h, afterClose?_cons_of_ne (by decide)]

/-- Condensed text is closed where the text is. -/
theorem afterClose?_condense (text : Text) :
    afterClose? (condense text) = (afterClose? text).map condense := by
  fun_induction afterClose? text with
  | case1 => rfl
  | case2 after =>
      rw [condense_cons isLineBreak_star, condense_cons isLineBreak_slash]
      rfl
  | case3 c rest hclose ih =>
      cases hc : isLineBreak c with
      | true => rw [condense_cons_of_break hc, afterClose?_breakBefore, ih]
      | false =>
          rw [condense_cons hc, afterClose?, ih]
          intro after hstar hslash
          obtain ⟨back, rfl, -⟩ := (condense_eq_cons_iff isLineBreak_slash).mp hslash
          exact hclose back hstar rfl

/-- Condensed text opens a block where the text does. -/
theorem condense_eq_open_iff {text body : Text} :
    condense text = '/' :: '*' :: '*' :: body ↔
      ∃ back, text = '/' :: '*' :: '*' :: back ∧ condense back = body := by
  rw [condense_eq_cons_iff isLineBreak_slash]
  constructor
  · rintro ⟨first, rfl, hfirst⟩
    obtain ⟨second, rfl, hsecond⟩ := (condense_eq_cons_iff isLineBreak_star).mp hfirst
    obtain ⟨back, rfl, hback⟩ := (condense_eq_cons_iff isLineBreak_star).mp hsecond
    exact ⟨back, rfl, hback⟩
  · rintro ⟨back, rfl, rfl⟩
    refine ⟨'*' :: '*' :: back, rfl, ?_⟩
    rw [condense_cons isLineBreak_star, condense_cons isLineBreak_star]

theorem removeBlocks_cons_of_break {c : Char} (hc : isLineBreak c = true) (rest : Text) :
    removeBlocks (c :: rest) = c :: removeBlocks rest := by
  apply removeBlocks_cons
  intro body heq
  rw [(List.cons.inj heq).1] at hc
  cases hc

theorem condense_removeBlocks_breakBefore (text : Text) :
    condense (removeBlocks (breakBefore text)) = breakBefore (condense (removeBlocks text)) := by
  have hfeed : isLineBreak '\n' = true := rfl
  rcases breakBefore_cases text with rfl | ⟨rest, rfl⟩ | h
  · rfl
  · rw [breakBefore_lineFeed, removeBlocks_cons_of_break hfeed, condense_cons_of_break hfeed,
      breakBefore_breakBefore]
  · rw [h, removeBlocks_cons_of_break hfeed, condense_cons_of_break hfeed]

/-- Removing blocks from condensed text leaves the same lines, empty ones aside. -/
theorem condense_removeBlocks_condense (text : Text) :
    condense (removeBlocks (condense text)) = condense (removeBlocks text) := by
  -- A closed block leads on to what stands behind it, hence the induction on the length.
  induction hlength : text.length using Nat.strongRecOn generalizing text with
  | ind n ih =>
    subst hlength
    cases text with
    | nil => rfl
    | cons c rest =>
        have hrest := ih rest.length (Nat.lt_succ_self _) rest rfl
        by_cases hopen : ∃ body, c :: rest = '/' :: '*' :: '*' :: body
        · obtain ⟨body, heq⟩ := hopen
          rw [heq, condense_eq_open_iff.mpr ⟨body, rfl, rfl⟩, removeBlocks_open, removeBlocks_open,
            afterClose?_condense]
          cases hafter : afterClose? body with
          | none =>
              have hbody : condense ('/' :: '*' :: '*' :: body) =
                  '/' :: '*' :: '*' :: condense body := condense_eq_open_iff.mpr ⟨body, rfl, rfl⟩
              simp only [Option.map_none]
              rw [← hbody, condense_condense]
          | some after =>
              have hshort := length_of_afterClose? hafter
              apply ih after.length _ after rfl
              rw [heq]
              simp only [List.length_cons]
              omega
        · rw [not_exists] at hopen
          cases hc : isLineBreak c with
          | true =>
              rw [condense_cons_of_break hc, condense_removeBlocks_breakBefore, hrest,
                removeBlocks_cons hopen, condense_cons_of_break hc]
          | false =>
              have hcondensed : ∀ body, c :: condense rest ≠ '/' :: '*' :: '*' :: body := by
                intro body heq
                rw [← condense_cons hc] at heq
                obtain ⟨back, hback, -⟩ := condense_eq_open_iff.mp heq
                exact hopen back hback
              rw [condense_cons hc, removeBlocks_cons hcondensed, removeBlocks_cons hopen,
                condense_cons hc, condense_cons hc, hrest]

/-- Nothing is kept of an empty line. -/
theorem keptLine?_nil : keptLine? [] = none := rfl

theorem filterMap_keptLine?_fullLines (text : Text) :
    (fullLines text).filterMap keptLine? = (lines text).filterMap keptLine? := by
  rw [fullLines, List.filterMap_filter]
  congr 1
  funext line
  by_cases hnil : line = []
  · rw [hnil, keptLine?_nil]
    rfl
  · simp [hnil]

/-- Stripping condensed text comes to the same. -/
theorem strip_condense (text : Text) : strip (condense text) = strip text := by
  rw [strip, strip, ← filterMap_keptLine?_fullLines, ← fullLines_condense,
    condense_removeBlocks_condense, fullLines_condense, filterMap_keptLine?_fullLines]

/-- What is left of a text depends on its lines only. -/
theorem strip_eq_of_lines_eq {text other : Text} (h : lines text = lines other) :
    strip text = strip other := by
  have hcondense : condense text = condense other := by rw [condense, condense, h]
  rw [← strip_condense text, ← strip_condense other, hcondense]

end Condensed

end TreeFold.Comment
