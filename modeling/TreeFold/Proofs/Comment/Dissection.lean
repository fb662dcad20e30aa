import TreeFold.Proofs.Comment.Blocks

/-!
# Cutting a text at its blocks

A text is cut in exactly one way into closed documentation blocks and the gaps between them: each
block begins where the first opening token behind the block before it stands, it ends with the first
closing token behind its opening one, and no block is left in the rest. The gaps and the rest are
what removing the blocks leaves.
-/

namespace TreeFold.Comment

open Text

/-- The token that opens a documentation block. -/
def opening : Text := ['/', '*', '*']

/-- The token that closes a block. -/
def closing : Text := ['*', '/']

/-- In the text, no token begins before the end of `front`. -/
def FirstAt (token front text : Text) : Prop :=
  ∀ other, other ++ token <+: text → front.length ≤ other.length

/-- A documentation block: it goes up to the first closing token behind its opening one. -/
def IsBlock (block : Text) : Prop :=
  ∃ body, block = opening ++ (body ++ closing) ∧ FirstAt closing body (body ++ closing)

/-- Behind some opening token of the text stands a closing one. -/
def HoldsBlock (text : Text) : Prop :=
  ∃ front body, front ++ (opening ++ (body ++ closing)) <+: text

/-- The text is made of gaps, each with the next block behind it, and a rest without block. -/
inductive Dissects : Text → List (Text × Text) → Text → Prop
  | rest {text : Text} (h : ¬HoldsBlock text) : Dissects text [] text
  | block {gap block text rest : Text} {parts : List (Text × Text)} (hblock : IsBlock block)
      (hfirst : FirstAt opening gap (gap ++ block)) (h : Dissects text parts rest) :
      Dissects (gap ++ (block ++ text)) ((gap, block) :: parts) rest

/-- What stands outside the blocks. -/
def outsideBlocks (parts : List (Text × Text)) (rest : Text) : Text :=
  parts.flatMap Prod.fst ++ rest

section First

variable {c : Char} {token front text piece more other : Text}

theorem FirstAt.nil : FirstAt token [] text :=
  fun _ _ => Nat.zero_le _

theorem FirstAt.cons (hc : ¬token <+: c :: text) (h : FirstAt token front text) :
    FirstAt token (c :: front) (c :: text) := by
  intro other hother
  cases other with
  | nil => exact absurd hother hc
  | cons d other => exact Nat.succ_le_succ (h other (List.cons_prefix_cons.mp hother).2)

/-- What comes later in a text does not change where its first token stands. -/
theorem FirstAt.length_le (h : FirstAt token front (front ++ piece))
    (hpiece : token.length ≤ piece.length) (hother : other ++ token <+: front ++ (piece ++ more)) :
    front.length ≤ other.length := by
  by_contra hlt
  have hwhole : front ++ piece <+: front ++ (piece ++ more) := ⟨more, List.append_assoc ..⟩
  apply hlt
  apply h
  apply List.prefix_of_prefix_length_le hother hwhole
  rw [List.length_append, List.length_append]
  omega

/-- The first token of a text stands at one place. -/
theorem FirstAt.unique {piece' more' : Text} (hpiece : token <+: piece) (hpiece' : token <+: piece')
    (h : FirstAt token front (front ++ piece)) (h' : FirstAt token other (other ++ piece'))
    (heq : front ++ (piece ++ more) = other ++ (piece' ++ more')) :
    front = other ∧ piece ++ more = piece' ++ more' := by
  have hfront : front ++ token <+: front ++ (piece ++ more) :=
    (List.prefix_append_right_inj front).mpr (hpiece.trans (List.prefix_append _ _))
  have hother : other ++ token <+: other ++ (piece' ++ more') :=
    (List.prefix_append_right_inj other).mpr (hpiece'.trans (List.prefix_append _ _))
  apply List.append_inj heq
  apply Nat.le_antisymm
  · exact h.length_le hpiece.length_le (heq ▸ hother)
  · exact h'.length_le hpiece'.length_le (heq ▸ hfront)

end First

section Closing

variable {text after : Text}

/-- What is cut off at a closing token is the text up to the first one. -/
theorem exists_of_afterClose? (h : afterClose? text = some after) :
    ∃ body, text = body ++ (closing ++ after) ∧ FirstAt closing body (body ++ closing) := by
  fun_induction afterClose? text with
  | case1 => cases h
  | case2 rest =>
      obtain rfl := Option.some.inj h
      exact ⟨[], rfl, .nil⟩
  | case3 c rest hclose ih =>
      obtain ⟨body, rfl, hbody⟩ := ih h
      refine ⟨c :: body, rfl, hbody.cons ?_⟩
      rintro ⟨more, hmore⟩
      obtain ⟨rfl, hslash⟩ := List.cons.inj hmore
      apply hclose (more ++ after) rfl
      calc
        body ++ (closing ++ after) = body ++ closing ++ after := (List.append_assoc ..).symm
        _ = '/' :: (more ++ after) := congrArg (· ++ after) hslash.symm

/-- When nothing is cut off, the text holds no closing token. -/
theorem not_closing_of_afterClose? (h : afterClose? text = none) (front : Text) :
    ¬front ++ closing <+: text := by
  fun_induction afterClose? text generalizing front with
  | case1 => simp [closing]
  | case2 rest => cases h
  | case3 c rest hclose ih =>
      intro hfront
      cases front with
      | nil =>
          obtain ⟨more, hmore⟩ := hfront
          obtain ⟨rfl, hrest⟩ := List.cons.inj hmore
          exact hclose more rfl hrest.symm
      | cons d front => exact ih h front (List.cons_prefix_cons.mp hfront).2

end Closing

section Cutting

variable {c : Char} {text rest gap block : Text} {parts : List (Text × Text)}

theorem IsBlock.opening_isPrefix (h : IsBlock block) : opening <+: block := by
  obtain ⟨body, rfl, -⟩ := h
  exact List.prefix_append _ _

theorem IsBlock.holdsBlock (h : IsBlock block) : HoldsBlock (gap ++ (block ++ text)) := by
  obtain ⟨body, rfl, -⟩ := h
  exact ⟨gap, body, text, List.append_assoc ..⟩

/-- A text begins with one block at most. -/
theorem IsBlock.unique {block' text' : Text} (h : IsBlock block) (h' : IsBlock block')
    (heq : block ++ text = block' ++ text') : block = block' ∧ text = text' := by
  obtain ⟨body, rfl, hbody⟩ := h
  obtain ⟨body', rfl, hbody'⟩ := h'
  have hbehind : body ++ (closing ++ text) = body' ++ (closing ++ text') := by
    simpa only [List.append_assoc, List.append_cancel_left_eq] using heq
  obtain ⟨rfl, htail⟩ :=
    FirstAt.unique List.prefix_rfl List.prefix_rfl hbody hbody' hbehind
  exact ⟨rfl, List.append_cancel_left htail⟩

theorem not_opening_iff :
    ¬opening <+: c :: rest ↔ ∀ body, c :: rest ≠ '/' :: '*' :: '*' :: body := by
  constructor
  · intro h body heq
    exact h ⟨body, heq.symm⟩
  · rintro h ⟨body, hbody⟩
    exact h body hbody.symm

/-- A text that begins with a block that is never closed holds no block. -/
theorem not_holdsBlock_of_unclosed {body : Text} (h : afterClose? body = none) :
    ¬HoldsBlock (opening ++ body) := by
  rintro ⟨front, inner, hinner⟩
  have hlong : front ++ (opening ++ inner) ++ closing <+: opening ++ body := by
    simpa only [List.append_assoc] using hinner
  -- The closing token would stand behind the first opening one.
  have hfront : opening <+: front ++ (opening ++ inner) := by
    apply List.prefix_of_prefix_length_le (List.prefix_append _ body)
      ((List.prefix_append _ _).trans hlong)
    rw [List.length_append, List.length_append]
    omega
  obtain ⟨between, hbetween⟩ := hfront
  rw [← hbetween, List.append_assoc, List.prefix_append_right_inj] at hlong
  exact not_closing_of_afterClose? h between hlong

/-- Behind a character that opens no block, a text is cut as its rest. -/
theorem Dissects.cons (hopen : ¬opening <+: c :: text) (h : Dissects text parts rest) :
    ∃ parts' rest', Dissects (c :: text) parts' rest' ∧
      outsideBlocks parts' rest' = c :: outsideBlocks parts rest := by
  cases h with
  | rest hrest =>
      refine ⟨[], c :: text, .rest ?_, rfl⟩
      rintro ⟨front, body, hbody⟩
      cases front with
      | nil => exact hopen ((List.prefix_append _ _).trans hbody)
      | cons d front => exact hrest ⟨front, body, (List.cons_prefix_cons.mp hbody).2⟩
  | @block gap block text _ parts hblock hfirst h =>
      have hwhole : c :: (gap ++ block) <+: c :: (gap ++ (block ++ text)) :=
        ⟨text, congrArg (c :: ·) (List.append_assoc ..)⟩
      have hcut : FirstAt opening (c :: gap) (c :: (gap ++ block)) :=
        hfirst.cons fun hbegins => hopen (hbegins.trans hwhole)
      exact ⟨(c :: gap, block) :: parts, rest,
        @Dissects.block (c :: gap) _ _ _ _ hblock hcut h, rfl⟩

/-- Every text is cut in some way, and removing its blocks leaves what stands outside them. -/
theorem exists_dissects (text : Text) :
    ∃ parts rest, Dissects text parts rest ∧ removeBlocks text = outsideBlocks parts rest := by
  -- A closed block leads on to what stands behind it, hence the induction on the length.
  induction hlength : text.length using Nat.strongRecOn generalizing text with
  | ind n ih =>
    subst hlength
    cases text with
    | nil => exact ⟨[], [], .rest (by simp [HoldsBlock, opening]), rfl⟩
    | cons c text =>
        by_cases hopen : opening <+: c :: text
        · obtain ⟨body, hbody⟩ := hopen
          have hremove := removeBlocks_open body
          rw [← hbody]
          cases hafter : afterClose? body with
          | none =>
              rw [hafter] at hremove
              exact ⟨[], _, .rest (not_holdsBlock_of_unclosed hafter), hremove⟩
          | some after =>
              rw [hafter] at hremove
              obtain ⟨inner, rfl, hinner⟩ := exists_of_afterClose? hafter
              have hshort : after.length < (c :: text).length := by
                rw [← hbody]
                simp only [opening, closing, List.length_append, List.length_cons, List.length_nil]
                omega
              obtain ⟨parts, rest, hparts, hrest⟩ := ih _ hshort after rfl
              have hcut := @Dissects.block [] _ _ _ _ ⟨inner, rfl, hinner⟩ .nil hparts
              refine ⟨([], opening ++ (inner ++ closing)) :: parts, rest, ?_, hremove.trans hrest⟩
              simpa only [List.nil_append, List.append_assoc] using hcut
        · obtain ⟨parts, rest, hparts, hremove⟩ := ih _ (Nat.lt_succ_self _) text rfl
          obtain ⟨parts', rest', hcut, houtside⟩ := hparts.cons hopen
          refine ⟨parts', rest', hcut, ?_⟩
          rw [removeBlocks_cons (not_opening_iff.mp hopen), hremove, houtside]

/-- A text is cut in one way only. -/
theorem Dissects.unique {parts' : List (Text × Text)} {rest' : Text} (h : Dissects text parts rest)
    (h' : Dissects text parts' rest') : parts = parts' ∧ rest = rest' := by
  induction h generalizing parts' with
  | rest hrest =>
      cases h' with
      | rest _ => exact ⟨rfl, rfl⟩
      | block hblock _ _ => exact absurd hblock.holdsBlock hrest
  | @block gap block text _ _ hblock hfirst h ih =>
      generalize hwhole : gap ++ (block ++ text) = whole at h'
      cases h' with
      | rest hrest => exact absurd (hwhole ▸ hblock.holdsBlock) hrest
      | block hblock' hfirst' h' =>
          obtain ⟨rfl, htail⟩ := FirstAt.unique hblock.opening_isPrefix hblock'.opening_isPrefix
            hfirst hfirst' hwhole
          obtain ⟨rfl, rfl⟩ := hblock.unique hblock' htail
          obtain ⟨rfl, rfl⟩ := ih h'
          exact ⟨rfl, rfl⟩

/-- Removing the blocks of a text leaves what stands outside them. -/
theorem removeBlocks_of_dissects (h : Dissects text parts rest) :
    removeBlocks text = outsideBlocks parts rest := by
  obtain ⟨parts', rest', h', hremove⟩ := exists_dissects text
  obtain ⟨rfl, rfl⟩ := h.unique h'
  exact hremove

theorem existsUnique_dissects (text : Text) :
    ∃! cut : List (Text × Text) × Text, Dissects text cut.1 cut.2 := by
  obtain ⟨parts, rest, h, -⟩ := exists_dissects text
  refine ⟨(parts, rest), h, ?_⟩
  rintro ⟨parts', rest'⟩ h'
  obtain ⟨rfl, rfl⟩ := h.unique h'
  rfl

end Cutting

end TreeFold.Comment
