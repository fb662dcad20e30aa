import TreeFold.Proofs.Comment.Dissection

/-!
# Blocks and the comments of a language

A language sees in a text, quotes aside, code, line comments up to the end of the line, and block
comments up to the first closing token behind the two characters that open them. Documentation
blocks are found without regard to such comments. Each block that is removed begins in one of them
all the same, and no code up to the end of this comment is lost.

Code is lost where a block goes on behind the comment in which it begins. This happens in two ways:
the comment is a line comment and the block is closed on a later line, or the comment is closed by
the first or the fourth character of the block, in `*/**` and in `/**/`.
-/

namespace TreeFold.Comment

open Text

/-- A piece of a text as a language sees it. -/
inductive Token where
  | code (c : Char)
  | lineComment (text : Text)
  | blockComment (text : Text)
deriving DecidableEq, Repr

namespace Token

/-- The characters of the token. -/
def text : Token → Text
  | code c => [c]
  | lineComment text => text
  | blockComment text => text

/-- Whether the token is a comment. -/
def isComment : Token → Bool
  | code _ => false
  | _ => true

end Token

/-- The text opens a comment: a line comment, or a block comment that is closed. -/
def OpensComment (text : Text) : Prop :=
  ['/', '/'] <+: text ∨ ∃ body, '/' :: '*' :: (body ++ closing) <+: text

/-- The text is read from its start into tokens. -/
inductive Lexes : Text → List Token → Prop
  | nil : Lexes [] []
  | lineComment {body rest : Text} {tokens : List Token}
      (hbody : ∀ c ∈ body, isLineBreak c = false) (hrest : ∀ c ∈ rest.head?, isLineBreak c = true)
      (h : Lexes rest tokens) :
      Lexes ('/' :: '/' :: body ++ rest) (.lineComment ('/' :: '/' :: body) :: tokens)
  | blockComment {body rest : Text} {tokens : List Token}
      (hbody : FirstAt closing body (body ++ closing)) (h : Lexes rest tokens) :
      Lexes ('/' :: '*' :: (body ++ closing) ++ rest)
        (.blockComment ('/' :: '*' :: (body ++ closing)) :: tokens)
  | code {c : Char} {rest : Text} {tokens : List Token} (hc : ¬OpensComment (c :: rest))
      (h : Lexes rest tokens) : Lexes ([c] ++ rest) (.code c :: tokens)

/-- The token that the character at a place belongs to, and the characters of the token from there
on. -/
def tokenAt? : List Token → Nat → Option (Token × Text)
  | [], _ => none
  | token :: rest, i =>
    if i < token.text.length then some (token, token.text.drop i)
    else tokenAt? rest (i - token.text.length)

/-- The block that stands behind `front` in the text is removed from it. -/
def IsRemoved (text front block : Text) : Prop :=
  ∃ earlier gap later rest, Dissects text (earlier ++ (gap, block) :: later) rest ∧
    front = earlier.flatMap (fun part => part.1 ++ part.2) ++ gap

/-- The character at the place stands outside the blocks that are removed. -/
def Survives (text : Text) (i : Nat) : Prop :=
  ∀ front block, IsRemoved text front block → i < front.length ∨ front.length + block.length ≤ i

/-- How a block goes on behind the comment in which it begins, `left` being the comment from there
on: the block holds the end of a line, or the comment ends with the first or the fourth character of
the block. -/
def Overruns (block left : Text) : Token → Prop
  | .code _ => False
  | .lineComment _ => ∃ c ∈ block, isLineBreak c = true
  | .blockComment _ => left.length = 1 ∨ left.length = 4

/-- The block at the place begins in a comment, `left` being the comment from there on, and takes
away code behind the end of the comment only. -/
structure BeginsInComment (tokens : List Token) (start : Nat) (block left : Text) (token : Token) :
    Prop where
  begins : tokenAt? tokens start = some (token, left)
  isComment : token.isComment = true
  length_lt_iff : left.length < block.length ↔ Overruns block left token
  behind : ∀ i c, tokenAt? tokens i = some (.code c, [c]) →
    start ≤ i → i < start + block.length → start + left.length ≤ i

section Tokens

variable {text left rest : Text} {token : Token} {tokens : List Token} {i : Nat}

theorem Lexes.exists_rest (h : Lexes text (token :: tokens)) :
    ∃ rest, text = token.text ++ rest ∧ Lexes rest tokens := by
  cases h with
  | lineComment _ _ h => exact ⟨_, rfl, h⟩
  | blockComment _ h => exact ⟨_, rfl, h⟩
  | code _ h => exact ⟨_, rfl, h⟩

/-- Every place in a text belongs to a token. -/
theorem Lexes.exists_tokenAt? (h : Lexes text tokens) (hi : i < text.length) :
    ∃ token left, tokenAt? tokens i = some (token, left) := by
  induction tokens generalizing text i with
  | nil =>
      cases h
      exact absurd hi (Nat.not_lt_zero i)
  | cons token tokens ih =>
      obtain ⟨rest, rfl, hrest⟩ := h.exists_rest
      rw [tokenAt?]
      split
      · exact ⟨_, _, rfl⟩
      · apply ih hrest
        rw [List.length_append] at hi
        omega

/-- The characters of the token stand at the place, and behind the whole token the text goes on with
the next ones. -/
theorem Lexes.of_tokenAt? (h : Lexes text tokens) (hat : tokenAt? tokens i = some (token, left)) :
    ∃ passed rest later, token.text = passed ++ left ∧ left ≠ [] ∧ text.drop i = left ++ rest ∧
      Lexes (token.text ++ rest) (token :: later) := by
  induction tokens generalizing text i with
  | nil => cases hat
  | cons first tokens ih =>
      obtain ⟨rest, rfl, hrest⟩ := h.exists_rest
      rw [tokenAt?] at hat
      split at hat
      · rename_i hi
        obtain ⟨rfl, rfl⟩ := Prod.mk.inj (Option.some.inj hat)
        refine ⟨first.text.take i, rest, tokens, (List.take_append_drop i _).symm, ?_, ?_, h⟩
        · rw [← List.length_pos_iff, List.length_drop]
          omega
        · exact List.drop_append_of_le_length (Nat.le_of_lt hi)
      · rename_i hi
        obtain ⟨passed, more, later, hpassed, hleft, hdrop, hlexes⟩ := ih hrest hat
        refine ⟨passed, more, later, hpassed, hleft, ?_, hlexes⟩
        rw [List.drop_append, List.drop_eq_nil_of_le (Nat.le_of_not_lt hi), List.nil_append, hdrop]

/-- The next places up to the end of the token belong to it too. -/
theorem tokenAt?_add (hat : tokenAt? tokens i = some (token, left)) {d : Nat}
    (hd : d < left.length) : tokenAt? tokens (i + d) = some (token, left.drop d) := by
  induction tokens generalizing i with
  | nil => cases hat
  | cons first tokens ih =>
      rw [tokenAt?] at hat ⊢
      split at hat
      · obtain ⟨rfl, rfl⟩ := Prod.mk.inj (Option.some.inj hat)
        rw [List.length_drop] at hd
        rw [if_pos (by omega), List.drop_drop]
      · rename_i hi
        rw [if_neg (by omega)]
        have hrest := ih hat
        rwa [Nat.sub_add_comm (Nat.le_of_not_lt hi)]

end Tokens

section Inversion

variable {text rest : Text} {tokens : List Token}

theorem Lexes.of_lineComment (h : Lexes (text ++ rest) (.lineComment text :: tokens)) :
    (∀ c ∈ text, isLineBreak c = false) ∧ ∀ c ∈ rest.head?, isLineBreak c = true := by
  generalize hwhole : text ++ rest = whole at h
  cases h with
  | @lineComment body rest' _ hbody hrest h =>
      obtain rfl : rest = rest' := List.append_cancel_left hwhole
      refine ⟨?_, hrest⟩
      simpa [show isLineBreak '/' = false by decide] using hbody

theorem Lexes.of_blockComment (h : Lexes (text ++ rest) (.blockComment text :: tokens)) :
    closing <:+ text := by
  generalize text ++ rest = whole at h
  cases h with
  | @blockComment body _ _ _ _ => exact ⟨'/' :: '*' :: body, rfl⟩

theorem Lexes.of_code {c : Char} (h : Lexes (c :: rest) (.code c :: tokens)) :
    ¬OpensComment (c :: rest) := by
  cases h with
  | code hc _ => exact hc

end Inversion

section Existence

theorem not_opensComment_of_ne {c : Char} (hc : c ≠ '/') (rest : Text) :
    ¬OpensComment (c :: rest) := by
  rintro (hline | ⟨body, hblock⟩)
  · exact hc (List.cons_prefix_cons.mp hline).1.symm
  · exact hc (List.cons_prefix_cons.mp hblock).1.symm

variable {text rest : Text} {tokens : List Token}

/-- A text that opens a comment begins with a line comment up to the end of the line, or with a
block comment up to the first closing token. -/
theorem OpensComment.exists_token (h : OpensComment text) :
    (∃ body rest, text = '/' :: '/' :: body ++ rest ∧ (∀ c ∈ body, isLineBreak c = false) ∧
        ∀ c ∈ rest.head?, isLineBreak c = true) ∨
      ∃ body rest, text = '/' :: '*' :: (body ++ closing) ++ rest ∧
        FirstAt closing body (body ++ closing) := by
  rcases h with ⟨rest, rfl⟩ | ⟨body, rest, rfl⟩
  · left
    refine ⟨rest.takeWhile (!isLineBreak ·), rest.dropWhile (!isLineBreak ·), ?_, ?_, ?_⟩
    · simp
    · intro c hc
      simpa using List.mem_takeWhile_imp hc
    · intro c hc
      have hhead := List.head?_dropWhile_not (!isLineBreak ·) rest
      rw [Option.mem_def.mp hc] at hhead
      simpa using hhead
  · right
    cases hafter : afterClose? (body ++ closing ++ rest) with
    | none => exact absurd (List.prefix_append _ _) (not_closing_of_afterClose? hafter body)
    | some after =>
        obtain ⟨first, hfirst, hcloses⟩ := exists_of_afterClose? hafter
        refine ⟨first, after, ?_, hcloses⟩
        simpa using hfirst

/-- Every text is read into tokens. -/
theorem exists_lexes (text : Text) : ∃ tokens, Lexes text tokens := by
  induction hlength : text.length using Nat.strongRecOn generalizing text with
  | ind n ih =>
    subst hlength
    cases text with
    | nil => exact ⟨[], .nil⟩
    | cons c rest =>
        by_cases hc : OpensComment (c :: rest)
        · rcases hc.exists_token with ⟨body, back, heq, hbody, hback⟩ | ⟨body, back, heq, hbody⟩
          · rw [heq] at ih ⊢
            obtain ⟨tokens, htokens⟩ := ih _ (by simp; omega) back rfl
            exact ⟨_, .lineComment hbody hback htokens⟩
          · rw [heq] at ih ⊢
            obtain ⟨tokens, htokens⟩ := ih _ (by simp; omega) back rfl
            exact ⟨_, .blockComment hbody htokens⟩
        · obtain ⟨tokens, htokens⟩ := ih _ (Nat.lt_succ_self _) rest rfl
          exact ⟨_, .code hc htokens⟩

/-- A line comment goes up to the first line break. -/
theorem takeWhile_of_line {body rest : Text} (hbody : ∀ c ∈ body, isLineBreak c = false)
    (hrest : ∀ c ∈ rest.head?, isLineBreak c = true) :
    (body ++ rest).takeWhile (!isLineBreak ·) = body := by
  rw [List.takeWhile_append_of_pos (by simpa using hbody)]
  cases rest with
  | nil => exact List.append_nil body
  | cons c rest =>
      rw [List.takeWhile_cons_of_neg (by simpa using hrest c rfl)]
      exact List.append_nil body

/-- A text is read in one way only. -/
theorem Lexes.unique {tokens' : List Token} (h : Lexes text tokens) (h' : Lexes text tokens') :
    tokens = tokens' := by
  induction h generalizing tokens' with
  | nil => cases h' with
    | nil => rfl
  | @lineComment body rest _ hbody hrest h ih =>
      generalize hwhole : '/' :: '/' :: body ++ rest = whole at h'
      cases h' with
      | nil => cases hwhole
      | @lineComment body' rest' _ hbody' hrest' h' =>
          have hlines : body ++ rest = body' ++ rest' := by simpa using hwhole
          have hsame : body = body' := by
            rw [← takeWhile_of_line hbody hrest, hlines, takeWhile_of_line hbody' hrest']
          subst hsame
          rw [ih (List.append_cancel_left hlines ▸ h')]
      | blockComment _ _ => exact absurd hwhole (by simp)
      | code hc _ => exact absurd (Or.inl ⟨_, hwhole⟩) hc
  | @blockComment body rest _ hbody h ih =>
      generalize hwhole : '/' :: '*' :: (body ++ closing) ++ rest = whole at h'
      cases h' with
      | nil => cases hwhole
      | lineComment _ _ _ => exact absurd hwhole (by simp)
      | @blockComment body' rest' _ hbody' h' =>
          have hbehind : body ++ (closing ++ rest) = body' ++ (closing ++ rest') := by
            simpa using hwhole
          obtain ⟨rfl, htail⟩ :=
            FirstAt.unique List.prefix_rfl List.prefix_rfl hbody hbody' hbehind
          rw [ih (List.append_cancel_left htail ▸ h')]
      | code hc _ => exact absurd (Or.inr ⟨body, _, hwhole⟩) hc
  | @code c rest _ hc h ih =>
      generalize hwhole : [c] ++ rest = whole at h'
      cases h' with
      | nil => cases hwhole
      | lineComment _ _ _ => exact absurd (Or.inl ⟨_, hwhole.symm⟩) hc
      | @blockComment body _ _ _ _ => exact absurd (Or.inr ⟨body, _, hwhole.symm⟩) hc
      | code _ h' =>
          obtain ⟨rfl, rfl⟩ := List.cons.inj hwhole
          rw [ih h']

theorem existsUnique_lexes (text : Text) : ∃! tokens, Lexes text tokens := by
  obtain ⟨tokens, h⟩ := exists_lexes text
  exact ⟨tokens, h, fun _ h' => h'.unique h⟩

end Existence

section Removed

variable {text front block left rest : Text} {token : Token} {tokens : List Token}

/-- What is removed is a block of the text. -/
theorem IsRemoved.isBlock (h : IsRemoved text front block) :
    IsBlock block ∧ ∃ back, text = front ++ (block ++ back) := by
  obtain ⟨earlier, gap, later, rest, hcut, rfl⟩ := h
  generalize hparts : earlier ++ (gap, block) :: later = parts at hcut
  induction hcut generalizing earlier with
  | rest _ => simp at hparts
  | @block gap' block' text _ _ hblock _ _ ih =>
      cases earlier with
      | nil =>
          obtain ⟨hpart, -⟩ := List.cons.inj hparts
          obtain ⟨rfl, rfl⟩ := Prod.mk.inj hpart
          exact ⟨hblock, text, rfl⟩
      | cons part earlier =>
          obtain ⟨rfl, htail⟩ := List.cons.inj hparts
          obtain ⟨hfound, back, hback⟩ := ih earlier htail
          refine ⟨hfound, back, ?_⟩
          rw [hback, List.flatMap_cons]
          simp only [List.append_assoc]

/-- What begins with a block opens a comment. -/
theorem IsBlock.opensComment (h : IsBlock block) (rest : Text) : OpensComment (block ++ rest) := by
  obtain ⟨body, rfl, -⟩ := h
  right
  exact ⟨'*' :: body, rest, by simp [opening]⟩

theorem IsBlock.length_le (h : IsBlock block) : 5 ≤ block.length := by
  obtain ⟨body, rfl, -⟩ := h
  simp only [opening, closing, List.length_append, List.length_cons, List.length_nil]
  omega

/-- A closing token before the end of a block shares a character with the opening one. -/
theorem IsBlock.length_of_closing (h : IsBlock block) {before : Text}
    (hclosing : before ++ closing <+: block) (hshort : before.length + 2 < block.length) :
    before.length = 2 := by
  obtain ⟨body, rfl, hbody⟩ := h
  match before with
  | [] => simp [opening, closing] at hclosing
  | [_] => simp [opening, closing] at hclosing
  | [_, _] => rfl
  | _ :: _ :: _ :: before =>
      -- Behind the opening token the first closing one is the last.
      simp only [opening, List.cons_append, List.nil_append, List.cons_prefix_cons] at hclosing
      have hle := hbody before hclosing.2.2.2
      simp only [opening, closing, List.length_cons, List.length_append, List.length_nil] at hshort
      omega

/-- A block goes on behind a line comment when it holds the end of a line. -/
theorem length_lt_iff_of_line (hleft : ∀ c ∈ left, isLineBreak c = false)
    (hrest : ∀ c ∈ rest.head?, isLineBreak c = true) (hblock : block <+: left ++ rest) :
    left.length < block.length ↔ ∃ c ∈ block, isLineBreak c = true := by
  constructor
  · intro hlong
    obtain ⟨more, rfl⟩ : left <+: block :=
      List.prefix_of_prefix_length_le (List.prefix_append left rest) hblock (Nat.le_of_lt hlong)
    rw [List.prefix_append_right_inj] at hblock
    match more, hblock with
    | [], _ => simp at hlong
    | c :: more, ⟨back, hback⟩ =>
        have hbreak : isLineBreak c = true := hrest c (by rw [← hback]; rfl)
        exact ⟨c, List.mem_append_right left (List.mem_cons_self ..), hbreak⟩
  · rintro ⟨c, hc, hbreak⟩
    by_contra hshort
    have hbegins : block <+: left :=
      List.prefix_of_prefix_length_le hblock (List.prefix_append left rest)
        (Nat.le_of_not_lt hshort)
    exact absurd (hleft c (hbegins.subset hc)) (by simp [hbreak])

/-- A block goes on behind a block comment when the comment ends with the first or the fourth
character of the block. -/
theorem IsBlock.length_lt_iff (h : IsBlock block) (hleft : left ≠ [])
    (hclosing : 2 ≤ left.length → closing <:+ left) (hblock : block <+: left ++ rest) :
    left.length < block.length ↔ left.length = 1 ∨ left.length = 4 := by
  have hpos : 0 < left.length := List.length_pos_iff.mpr hleft
  have hfive := h.length_le
  constructor
  · intro hlong
    by_cases hone : left.length = 1
    · exact Or.inl hone
    · right
      obtain ⟨before, rfl⟩ := hclosing (by omega)
      have hbegins : before ++ closing <+: block :=
        List.prefix_of_prefix_length_le (List.prefix_append _ rest) hblock (Nat.le_of_lt hlong)
      have hlength : (before ++ closing).length = before.length + 2 := List.length_append
      rw [hlength, h.length_of_closing hbegins (hlength ▸ hlong)]
  · omega

/-- A block begins in a comment, and what of it stands in the comment is no code. -/
theorem IsBlock.beginsInComment (h : IsBlock block) {back : Text}
    (htext : text = front ++ (block ++ back)) (hlexes : Lexes text tokens) :
    ∃ token left, BeginsInComment tokens front.length block left token := by
  have hlength : front.length < text.length := by
    have hfive := h.length_le
    rw [htext, List.length_append, List.length_append]
    omega
  obtain ⟨token, left, hat⟩ := hlexes.exists_tokenAt? hlength
  obtain ⟨passed, rest, later, htoken, hleft, hdrop, hfrom⟩ := hlexes.of_tokenAt? hat
  have hwhole : block ++ back = left ++ rest := by
    rw [← hdrop, htext, List.drop_left]
  have hblock : block <+: left ++ rest := ⟨back, hwhole⟩
  -- A code character opens no comment, and so no block.
  have hcomment : token.isComment = true := by
    cases token with
    | code c =>
        obtain ⟨-, rfl⟩ | ⟨-, hnil⟩ := List.append_eq_singleton_iff.mp htoken.symm
        · have hopens := h.opensComment back
          rw [hwhole] at hopens
          exact absurd hopens hfrom.of_code
        · exact absurd hnil hleft
    | lineComment _ => rfl
    | blockComment _ => rfl
  refine ⟨token, left, hat, hcomment, ?_, ?_⟩
  · cases token with
    | code c => cases hcomment
    | lineComment comment =>
        obtain ⟨hline, hend⟩ := hfrom.of_lineComment
        apply length_lt_iff_of_line _ hend hblock
        intro c hc
        exact hline c (htoken ▸ List.mem_append_right passed hc)
    | blockComment comment =>
        apply h.length_lt_iff hleft _ hblock
        intro htwo
        exact List.suffix_of_suffix_length_le hfrom.of_blockComment ⟨passed, htoken.symm⟩ htwo
  · intro i c hcode hstart hend
    by_contra hbefore
    have hinside := tokenAt?_add hat (d := i - front.length) (by omega)
    rw [Nat.add_sub_cancel' hstart, hcode] at hinside
    obtain ⟨rfl, -⟩ := Prod.mk.inj (Option.some.inj hinside)
    cases hcomment

end Removed

/-- A line comment that holds the token that opens a documentation block, before code and a plain
comment. -/
def commentedOpening : Text :=
  ['/', '/', ' ', '/', '*', '*', '\n', 'a', '\n', '/', '*', ' ', 'b', '*', '/']

theorem commentedOpening_lexes :
    Lexes commentedOpening [.lineComment ['/', '/', ' ', '/', '*', '*'], .code '\n', .code 'a',
      .code '\n', .blockComment ['/', '*', ' ', 'b', '*', '/']] := by
  apply @Lexes.lineComment [' ', '/', '*', '*'] _ _ (by simp [isLineBreak]) (by simp [isLineBreak])
  apply Lexes.code (not_opensComment_of_ne (by decide) _)
  apply Lexes.code (not_opensComment_of_ne (by decide) _)
  apply Lexes.code (not_opensComment_of_ne (by decide) _)
  apply @Lexes.blockComment [' ', 'b'] _ _ _ .nil
  exact (FirstAt.nil.cons (by decide)).cons (by decide)

theorem commentedOpening_dissects :
    Dissects commentedOpening
      [(['/', '/', ' '], ['/', '*', '*', '\n', 'a', '\n', '/', '*', ' ', 'b', '*', '/'])] [] := by
  apply @Dissects.block ['/', '/', ' '] (commentedOpening.drop 3) []
  · refine ⟨['\n', 'a', '\n', '/', '*', ' ', 'b'], rfl, ?_⟩
    iterate 7 apply FirstAt.cons (by decide)
    exact .nil
  · iterate 3 apply FirstAt.cons (by decide)
    exact .nil
  · apply Dissects.rest
    simp [HoldsBlock, opening]

/-- The code behind a commented opening token is lost. -/
theorem commentedOpening_lost :
    ¬∀ text tokens i c, (∀ d ∈ text, isQuote d = false) → Lexes text tokens →
      tokenAt? tokens i = some (.code c, [c]) → Survives text i := by
  intro hall
  have hplain : ∀ d ∈ commentedOpening, isQuote d = false := by
    simp [commentedOpening, isQuote]
  have hsurvives := hall commentedOpening _ 7 'a' hplain commentedOpening_lexes rfl
  have houtside := hsurvives _ _ ⟨[], _, [], _, commentedOpening_dissects, rfl⟩
  revert houtside
  decide

/-- Every block that is removed begins in a comment, and a character of code is lost only where a
block goes on behind the end of that comment. -/
theorem code_lost_behind_comment (text : Text) :
    (∃! tokens, Lexes text tokens) ∧
      (∃! cut : List (Text × Text) × Text, Dissects text cut.1 cut.2) ∧
      ∀ tokens parts rest, Lexes text tokens → Dissects text parts rest →
        removeBlocks text = outsideBlocks parts rest ∧
          (∀ front block, IsRemoved text front block →
            ∃ token left, BeginsInComment tokens front.length block left token) ∧
          ∀ i c, tokenAt? tokens i = some (.code c, [c]) →
            (¬Survives text i ↔ ∃ front block token left, IsRemoved text front block ∧
              BeginsInComment tokens front.length block left token ∧ Overruns block left token ∧
              front.length + left.length ≤ i ∧ i < front.length + block.length) := by
  refine ⟨existsUnique_lexes text, existsUnique_dissects text, ?_⟩
  intro tokens parts rest hlexes hcut
  have hbegins : ∀ front block, IsRemoved text front block →
      ∃ token left, BeginsInComment tokens front.length block left token := by
    intro front block hremoved
    obtain ⟨hblock, back, htext⟩ := hremoved.isBlock
    exact hblock.beginsInComment htext hlexes
  refine ⟨removeBlocks_of_dissects hcut, hbegins, ?_⟩
  intro i c hcode
  constructor
  · intro hlost
    simp only [Survives, not_forall, not_or, not_lt, not_le] at hlost
    obtain ⟨front, block, hremoved, hstart, hend⟩ := hlost
    obtain ⟨token, left, h⟩ := hbegins front block hremoved
    have hbehind := h.behind i c hcode hstart hend
    have hoverruns := h.length_lt_iff.mp (by omega)
    exact ⟨front, block, token, left, hremoved, h, hoverruns, hbehind, hend⟩
  · rintro ⟨front, block, token, left, hremoved, -, -, hbehind, hend⟩ hsurvives
    have houtside := hsurvives front block hremoved
    omega

/-- A closed comment of four characters, before code and a plain comment. -/
def closedAtOnce : Text :=
  ['/', '*', '*', '/', 'a', '/', '*', '*', '/']

theorem closedAtOnce_lexes :
    Lexes closedAtOnce [.blockComment ['/', '*', '*', '/'], .code 'a',
      .blockComment ['/', '*', '*', '/']] := by
  apply @Lexes.blockComment [] _ _ .nil
  apply Lexes.code (not_opensComment_of_ne (by decide) _)
  exact @Lexes.blockComment [] _ _ .nil .nil

theorem closedAtOnce_dissects : Dissects closedAtOnce [([], closedAtOnce)] [] := by
  apply @Dissects.block [] closedAtOnce []
  · refine ⟨['/', 'a', '/', '*'], rfl, ?_⟩
    iterate 4 apply FirstAt.cons (by decide)
    exact .nil
  · exact .nil
  · apply Dissects.rest
    simp [HoldsBlock, opening]

/-- The code between two comments of four characters is lost: they are the ends of one block. -/
theorem closedAtOnce_lost :
    removeBlocks closedAtOnce = [] ∧ ¬Survives closedAtOnce 4 ∧
      BeginsInComment [.blockComment ['/', '*', '*', '/'], .code 'a',
        .blockComment ['/', '*', '*', '/']] 0 closedAtOnce ['/', '*', '*', '/']
        (.blockComment ['/', '*', '*', '/']) := by
  have hremoved : IsRemoved closedAtOnce [] closedAtOnce :=
    ⟨[], _, [], _, closedAtOnce_dissects, rfl⟩
  obtain ⟨-, -, hall⟩ := code_lost_behind_comment closedAtOnce
  obtain ⟨hremove, hbegins, hlost⟩ := hall _ _ _ closedAtOnce_lexes closedAtOnce_dissects
  obtain ⟨token, left, h⟩ := hbegins _ _ hremoved
  obtain ⟨rfl, rfl⟩ := Prod.mk.inj (Option.some.inj h.begins)
  have hoverruns := h.length_lt_iff.mp (by decide)
  refine ⟨hremove, (hlost 4 'a' rfl).mpr ?_, h⟩
  exact ⟨_, _, _, _, hremoved, h, hoverruns, by decide, by decide⟩

end TreeFold.Comment
