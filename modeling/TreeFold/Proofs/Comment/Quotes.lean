import TreeFold.Comment
import TreeFold.Proofs.Text.Utf8

/-!
# Line comments outside quotes

A line is read from its start into characters that are no quotes and quoted runs, each closed by the
next quote of the kind that opened it; a run that is never closed takes the rest of the line. A line
comment is the first pair of slashes that stands outside the runs, and the scan with one open quote
as its state finds exactly this place.

The scan over the bytes of a line comes to the same, since no byte of a longer character is a quote
or a slash: the place found is always the start of a character.
-/

namespace TreeFold.Comment

open Text

/-- Characters that are no quotes, and closed quoted runs. Inside a run quotes of the other kind are
plain. -/
inductive QuotesClosed : Text → Prop
  | nil : QuotesClosed []
  | plain {c : Char} {rest : Text} (hc : isQuote c = false) (h : QuotesClosed rest) :
      QuotesClosed (c :: rest)
  | run {quote : Char} {body rest : Text} (hquote : isQuote quote = true) (hbody : quote ∉ body)
      (h : QuotesClosed rest) : QuotesClosed (quote :: (body ++ quote :: rest))

/-- How any line is read: as text with its quotes closed, behind which one run may stay open up to
the end of the line. -/
inductive QuotesRead : Text → Prop
  | nil : QuotesRead []
  | plain {c : Char} {rest : Text} (hc : isQuote c = false) (h : QuotesRead rest) :
      QuotesRead (c :: rest)
  | run {quote : Char} {body rest : Text} (hquote : isQuote quote = true) (hbody : quote ∉ body)
      (h : QuotesRead rest) : QuotesRead (quote :: (body ++ quote :: rest))
  | unclosed {quote : Char} {body : Text} (hquote : isQuote quote = true) (hbody : quote ∉ body) :
      QuotesRead (quote :: body)

/-- Behind `front`, outside quotes, the line holds the token of a comment. -/
structure CommentBehind (line front : Text) : Prop where
  closed : QuotesClosed front
  token : front ++ ['/', '/'] <+: line

/-- The first token outside quotes stands behind `front`. -/
structure FirstComment (line front : Text) : Prop where
  behind : CommentBehind line front
  first : ∀ other, CommentBehind line other → front.length ≤ other.length

/-- Every line is read in one of the ways. -/
theorem quotesRead (line : Text) : QuotesRead line := by
  induction hlength : line.length using Nat.strongRecOn generalizing line with
  | ind n ih =>
    subst hlength
    cases line with
    | nil => exact .nil
    | cons c rest =>
        cases hc : isQuote c with
        | false => exact .plain hc (ih _ (Nat.lt_succ_self _) rest rfl)
        | true =>
            by_cases hmem : c ∈ rest
            · obtain ⟨body, back, rfl, hbody⟩ := List.eq_append_cons_of_mem hmem
              refine .run hc hbody (ih _ ?_ back rfl)
              simp only [List.length_cons, List.length_append]
              omega
            · exact .unclosed hc hmem

section Outside

variable {c quote : Char} {body rest front : Text}

/-- A run ends at the first quote of the kind that opened it. -/
theorem run_inj {other back : Text} (hbody : quote ∉ body) (hother : quote ∉ other)
    (h : body ++ quote :: rest = other ++ quote :: back) : body = other ∧ rest = back := by
  induction body generalizing other with
  | nil =>
      cases other with
      | nil => exact ⟨rfl, (List.cons.inj h).2⟩
      | cons d other => exact absurd (List.cons.inj h).1 (List.ne_of_not_mem_cons hother)
  | cons c body ih =>
      cases other with
      | nil => exact absurd (List.cons.inj h).1.symm (List.ne_of_not_mem_cons hbody)
      | cons d other =>
          obtain ⟨rfl, htail⟩ := List.cons.inj h
          obtain ⟨rfl, hback⟩ := ih (List.not_mem_of_not_mem_cons hbody)
            (List.not_mem_of_not_mem_cons hother) htail
          exact ⟨rfl, hback⟩

/-- The quote that a closed text begins with is closed in it. -/
theorem QuotesClosed.exists_run (hquote : isQuote quote = true)
    (h : QuotesClosed (quote :: rest)) :
    ∃ body back, rest = body ++ quote :: back ∧ quote ∉ body ∧ QuotesClosed back := by
  cases h with
  | plain hc h => rw [hquote] at hc; cases hc
  | run _ hbody h => exact ⟨_, _, rfl, hbody, h⟩

theorem QuotesClosed.tail (hc : isQuote c = false) (h : QuotesClosed (c :: rest)) :
    QuotesClosed rest := by
  cases h with
  | plain _ h => exact h
  | run hquote _ _ => rw [hc] at hquote; cases hquote

/-- Inside an open run no place is outside quotes. -/
theorem not_quotesClosed_of_open (hfront : QuotesClosed front) (hquote : isQuote quote = true)
    (hbody : quote ∉ body) : ¬QuotesClosed (front ++ quote :: body) := by
  induction hfront with
  | nil =>
      intro h
      obtain ⟨run, back, rfl, -, -⟩ := h.exists_run hquote
      exact hbody (List.mem_append_right _ List.mem_cons_self)
  | plain hc _ ih => exact fun h => ih (h.tail hc)
  | run hopen hrun _ ih =>
      intro h
      rw [List.cons_append, List.append_assoc] at h
      obtain ⟨other, back, heq, hother, hback⟩ := h.exists_run hopen
      obtain ⟨-, rfl⟩ := run_inj hrun hother heq
      exact ih hback

theorem commentBehind_nil {line : Text} : CommentBehind line [] ↔ ['/', '/'] <+: line :=
  ⟨fun h => h.token, fun h => ⟨.nil, h⟩⟩

/-- A line that begins with a token is a comment from its start. -/
theorem firstComment_nil {line : Text} (h : ['/', '/'] <+: line) : FirstComment line [] :=
  ⟨commentBehind_nil.mpr h, fun _ _ => Nat.zero_le _⟩

/-- Behind a character that is no quote and begins no token, a line goes on as its rest. -/
theorem commentBehind_plain (hc : isQuote c = false) (htoken : ¬['/', '/'] <+: c :: rest) :
    CommentBehind (c :: rest) front ↔ ∃ back, front = c :: back ∧ CommentBehind rest back := by
  constructor
  · rintro ⟨hclosed, hbegins⟩
    cases front with
    | nil => exact absurd hbegins htoken
    | cons d back =>
        obtain ⟨rfl, hback⟩ := List.cons_prefix_cons.mp hbegins
        exact ⟨back, rfl, hclosed.tail hc, hback⟩
  · rintro ⟨back, rfl, hclosed, hbegins⟩
    exact ⟨.plain hc hclosed, List.cons_prefix_cons.mpr ⟨rfl, hbegins⟩⟩

/-- What is outside quotes in a line that begins with a quote lies behind its run. -/
theorem CommentBehind.exists_run (hquote : isQuote quote = true)
    (h : CommentBehind (quote :: rest) front) :
    ∃ body back, front = quote :: (body ++ quote :: back) ∧ quote ∉ body ∧ QuotesClosed back ∧
      body ++ quote :: (back ++ ['/', '/']) <+: rest := by
  obtain ⟨hclosed, hbegins⟩ := h
  cases front with
  | nil =>
      obtain ⟨rfl, -⟩ := List.cons_prefix_cons.mp hbegins
      cases hquote
  | cons d front =>
      obtain ⟨rfl, hrest⟩ := List.cons_prefix_cons.mp hbegins
      obtain ⟨body, back, rfl, hbody, hback⟩ := hclosed.exists_run hquote
      exact ⟨body, back, rfl, hbody, hback, by simpa using hrest⟩

/-- Behind a closed run a line goes on as its rest. -/
theorem commentBehind_run (hquote : isQuote quote = true) (hbody : quote ∉ body) :
    CommentBehind (quote :: (body ++ quote :: rest)) front ↔
      ∃ back, front = quote :: (body ++ quote :: back) ∧ CommentBehind rest back := by
  constructor
  · intro h
    obtain ⟨other, back, rfl, hother, hclosed, more, hrest⟩ := h.exists_run hquote
    rw [List.append_assoc, List.cons_append] at hrest
    obtain ⟨rfl, rfl⟩ := run_inj hother hbody hrest
    exact ⟨back, rfl, hclosed, List.prefix_append _ _⟩
  · rintro ⟨back, rfl, hclosed, hbegins⟩
    refine ⟨.run hquote hbody hclosed, ?_⟩
    simpa using hbegins

/-- A run that is never closed holds no comment. -/
theorem not_commentBehind_unclosed (hquote : isQuote quote = true) (hbody : quote ∉ body) :
    ¬CommentBehind (quote :: body) front := by
  intro h
  obtain ⟨other, back, -, -, -, hbegins⟩ := h.exists_run hquote
  exact hbody (hbegins.subset (List.mem_append_right _ List.mem_cons_self))

/-- What every comment of a line has in front of it, the first one has too. -/
theorem FirstComment.shift {line other : Text} {put : Text → Text} {size : Nat}
    (hput : ∀ front, (put front).length = front.length + size)
    (hiff : ∀ front, CommentBehind line front ↔ ∃ back, front = put back ∧ CommentBehind other back)
    (h : FirstComment other front) : FirstComment line (put front) := by
  refine ⟨(hiff _).mpr ⟨front, rfl, h.behind⟩, ?_⟩
  intro found hfound
  obtain ⟨back, rfl, hback⟩ := (hiff _).mp hfound
  rw [hput, hput]
  exact Nat.add_le_add_right (h.first back hback) size

end Outside

section Scan

variable {c quote : Char} {body rest front : Text} {passed : Nat}

/-- Inside a run only its own quote is seen. -/
theorem scanLine_inside (hne : quote ≠ c) (passed : Nat) (rest : Text) :
    scanLine passed (some quote) (c :: rest) = scanLine (passed + 1) (some quote) rest := by
  cases hc : isQuote c <;> simp [scanLine, hc, observeQuote, hne]

theorem scanLine_unclosed (hbody : quote ∉ body) (passed : Nat) :
    scanLine passed (some quote) body = none := by
  induction body generalizing passed with
  | nil => rfl
  | cons c body ih =>
      rw [scanLine_inside (List.ne_of_not_mem_cons hbody)]
      exact ih (List.not_mem_of_not_mem_cons hbody) _

theorem scanLine_closing (hquote : isQuote quote = true) (hbody : quote ∉ body) (passed : Nat)
    (rest : Text) :
    scanLine passed (some quote) (body ++ quote :: rest) =
      scanLine (passed + (body.length + 1)) none rest := by
  induction body generalizing passed with
  | nil => simp [scanLine, hquote, observeQuote]
  | cons c body ih =>
      rw [List.cons_append, scanLine_inside (List.ne_of_not_mem_cons hbody),
        ih (List.not_mem_of_not_mem_cons hbody), List.length_cons, Nat.add_assoc,
        Nat.add_comm 1]

theorem scanLine_opening (hquote : isQuote quote = true) (passed : Nat) (rest : Text) :
    scanLine passed none (quote :: rest) = scanLine (passed + 1) (some quote) rest := by
  rw [scanLine, if_pos hquote]
  rfl

theorem scanLine_plain (hc : isQuote c = false) (htoken : ¬['/', '/'] <+: c :: rest)
    (passed : Nat) : scanLine passed none (c :: rest) = scanLine (passed + 1) none rest := by
  rw [scanLine, if_neg (by simp [hc]), if_neg]
  intro h
  simp only [Option.isNone_none, Bool.true_and, Bool.and_eq_true, decide_eq_true_eq] at h
  obtain ⟨rfl, hhead⟩ := h
  obtain ⟨more, rfl⟩ := List.head?_eq_some_iff.mp hhead
  exact htoken (List.prefix_append ['/', '/'] more)

/-- Behind `passed` characters the scan finds the first comment of the line, and nothing when the
line has none. -/
def FindsFirst (line : Text) (passed : Nat) : Prop :=
  (∃ front, FirstComment line front ∧ scanLine passed none line = some (passed + front.length)) ∨
    (∀ front, ¬CommentBehind line front) ∧ scanLine passed none line = none

/-- A scan that goes on in the rest finds what it finds there. -/
theorem FindsFirst.shift {line other : Text} {put : Text → Text} {size : Nat}
    (hput : ∀ front, (put front).length = front.length + size)
    (hiff : ∀ front, CommentBehind line front ↔ ∃ back, front = put back ∧ CommentBehind other back)
    (hscan : scanLine passed none line = scanLine (passed + size) none other)
    (h : FindsFirst other (passed + size)) : FindsFirst line passed := by
  rcases h with ⟨front, hfirst, hfound⟩ | ⟨hnone, hfound⟩
  · left
    refine ⟨put front, hfirst.shift hput hiff, ?_⟩
    calc
      scanLine passed none line = some (passed + size + front.length) := hscan.trans hfound
      _ = some (passed + (put front).length) := by
        rw [hput, Nat.add_assoc, Nat.add_comm size]
  · right
    refine ⟨?_, hscan.trans hfound⟩
    intro front hfront
    obtain ⟨back, -, hback⟩ := (hiff front).mp hfront
    exact hnone back hback

theorem findsFirst (line : Text) (passed : Nat) : FindsFirst line passed := by
  induction quotesRead line generalizing passed with
  | nil =>
      right
      refine ⟨?_, rfl⟩
      intro front h
      simpa using h.token
  | @plain c rest hc hrest ih =>
      by_cases htoken : ['/', '/'] <+: c :: rest
      · left
        obtain ⟨more, hmore⟩ := htoken
        refine ⟨[], firstComment_nil ⟨more, hmore⟩, ?_⟩
        rw [← hmore]
        simp [scanLine, isQuote]
      · have hlength : ∀ front : Text, (c :: front).length = front.length + 1 :=
          fun _ => List.length_cons
        apply FindsFirst.shift hlength _ _ (ih (passed + 1))
        · exact fun front => commentBehind_plain hc htoken
        · exact scanLine_plain hc htoken passed
  | @run quote body rest hquote hbody hrest ih =>
      have hlength : ∀ front : Text,
          (quote :: (body ++ quote :: front)).length = front.length + (body.length + 2) := by
        intro front
        simp only [List.length_cons, List.length_append]
        omega
      apply FindsFirst.shift hlength _ _ (ih (passed + (body.length + 2)))
      · exact fun front => commentBehind_run hquote hbody
      · rw [scanLine_opening hquote, scanLine_closing hquote hbody, Nat.add_assoc, Nat.add_comm 1]
  | unclosed hquote hbody =>
      right
      refine ⟨fun front => not_commentBehind_unclosed hquote hbody, ?_⟩
      rw [scanLine_opening hquote, scanLine_unclosed hbody]

/-- The first comment is unique. -/
theorem FirstComment.unique {line front other : Text} (h : FirstComment line front)
    (h' : FirstComment line other) : front = other := by
  have hfront : front <+: line := (List.prefix_append _ _).trans h.behind.token
  have hother : other <+: line := (List.prefix_append _ _).trans h'.behind.token
  have hle := h.first other h'.behind
  apply (List.prefix_of_prefix_length_le hfront hother hle).eq_of_length
  exact Nat.le_antisymm hle (h'.first front h.behind)

/-- The index of a comment is the number of characters in front of the first one. -/
theorem commentIndex?_eq_some_iff {line : Text} {i : Nat} :
    commentIndex? line = some i ↔ ∃ front, FirstComment line front ∧ front.length = i := by
  rcases findsFirst line 0 with ⟨front, hfirst, hscan⟩ | ⟨hnone, hscan⟩
  · rw [commentIndex?, hscan, Nat.zero_add, Option.some.injEq]
    constructor
    · exact fun hi => ⟨front, hfirst, hi⟩
    · rintro ⟨other, hother, hi⟩
      rwa [hfirst.unique hother]
  · rw [commentIndex?, hscan]
    apply iff_of_false nofun
    rintro ⟨front, hfront, -⟩
    exact hnone front hfront.behind

theorem commentIndex?_eq_none_iff {line : Text} :
    commentIndex? line = none ↔ ∀ front, ¬CommentBehind line front := by
  rcases findsFirst line 0 with ⟨front, hfirst, hscan⟩ | ⟨hnone, hscan⟩
  · rw [commentIndex?, hscan]
    exact iff_of_false nofun fun h => h front hfirst.behind
  · rw [commentIndex?, hscan]
    exact iff_of_true rfl hnone

/-- The line up to its first comment. -/
theorem take_of_firstComment {line front : Text} (h : FirstComment line front) :
    line.take front.length = front :=
  (List.prefix_iff_eq_take.mp ((List.prefix_append _ _).trans h.behind.token)).symm

/-- What stripping looks at is the line up to its first comment. -/
theorem codeOf_of_firstComment {line front : Text} (h : FirstComment line front) :
    codeOf line = front := by
  rw [codeOf, commentIndex?_eq_some_iff.mpr ⟨front, h, rfl⟩]
  exact take_of_firstComment h

/-- A line without comment is looked at as a whole. -/
theorem codeOf_of_not_commentBehind {line : Text} (h : ∀ front, ¬CommentBehind line front) :
    codeOf line = line := by
  rw [codeOf, commentIndex?_eq_none_iff.mpr h]

/-- A line has a first comment or none. -/
theorem exists_firstComment (line : Text) :
    (∃ front, FirstComment line front) ∨ ∀ front, ¬CommentBehind line front := by
  rcases findsFirst line 0 with ⟨front, hfirst, -⟩ | ⟨hnone, -⟩
  · exact Or.inl ⟨front, hfirst⟩
  · exact Or.inr hnone

/-- Up to its first comment a line has no comment, and no start of it has one. -/
theorem not_commentBehind_of_isPrefix {line kept : Text} (h : kept <+: codeOf line) (front : Text) :
    ¬CommentBehind kept front := by
  rintro ⟨hclosed, htoken⟩
  rcases exists_firstComment line with ⟨first, hfirst⟩ | hnone
  · rw [codeOf_of_firstComment hfirst] at h
    have hline : first <+: line := (List.prefix_append _ _).trans hfirst.behind.token
    have hle := hfirst.first front ⟨hclosed, htoken.trans (h.trans hline)⟩
    have hlength := (htoken.trans h).length_le
    rw [List.length_append] at hlength
    simp only [List.length_cons, List.length_nil] at hlength
    omega
  · rw [codeOf_of_not_commentBehind hnone] at h
    exact hnone front ⟨hclosed, htoken.trans h⟩

end Scan

end TreeFold.Comment
