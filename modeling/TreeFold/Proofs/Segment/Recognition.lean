import TreeFold.Proofs.Segment.LineEndings

/-!
# Which lines are annotations

A line is an annotation when a text with the start of a path in it stands behind indentation, a
comment token and blanks. There is one such place in a line at most, since a path begins with none
of the characters that may stand before it. The path is the longest start of the text that has the
shape of an annotated path: it goes up to the end of the word characters behind the last dot of the
run of path characters there, a dot being passed over when it is the first character of the run or
no word character follows it.
-/

namespace TreeFold

/-- The rules turn the raw path into the path: the first rule whose marker the raw path begins with
replaces the marker, and without such a rule nothing is replaced. -/
inductive AliasRule.Rewrites : List AliasRule → Text → Text → Prop
  | first {before after : List AliasRule} {rule : AliasRule} {rest : Text}
      (hbefore : ∀ other ∈ before, ¬other.marker <+: rule.marker ++ rest) :
      Rewrites (before ++ rule :: after) (rule.marker ++ rest) (rule.replacement ++ rest)
  | unchanged {rules : List AliasRule} {raw : Text} (h : ∀ rule ∈ rules, ¬rule.marker <+: raw) :
      Rewrites rules raw raw

namespace AliasRule

variable {rules : List AliasRule} {rule : AliasRule} {raw path : Text}

theorem expand?_eq_some_iff :
    rule.expand? raw = some path ↔
      ∃ rest, raw = rule.marker ++ rest ∧ path = rule.replacement ++ rest := by
  rw [expand?, Text.dropStart?, Option.map_eq_some_iff]
  constructor
  · rintro ⟨rest, hrest, rfl⟩
    exact ⟨rest, (List.isPrefixOf?_eq_some_iff_append_eq.mp hrest).symm, rfl⟩
  · rintro ⟨rest, rfl, rfl⟩
    exact ⟨rest, List.isPrefixOf?_eq_some_iff_append_eq.mpr rfl, rfl⟩

theorem expand?_eq_none_iff : rule.expand? raw = none ↔ ¬rule.marker <+: raw := by
  rw [← Option.not_isSome_iff_eq_none, Option.isSome_iff_exists]
  apply not_congr
  constructor
  · rintro ⟨path, hpath⟩
    obtain ⟨rest, rfl, -⟩ := expand?_eq_some_iff.mp hpath
    exact List.prefix_append _ _
  · rintro ⟨rest, rfl⟩
    exact ⟨_, expand?_eq_some_iff.mpr ⟨rest, rfl, rfl⟩⟩

/-- Normalising a path is rewriting it by the first rule that applies. -/
theorem normalize_eq_iff : normalize rules raw = path ↔ Rewrites rules raw path := by
  constructor
  · rintro rfl
    rw [normalize]
    cases hfound : rules.findSome? (·.expand? raw) with
    | none =>
        apply Rewrites.unchanged
        intro rule hrule
        exact expand?_eq_none_iff.mp (List.findSome?_eq_none_iff.mp hfound rule hrule)
    | some path =>
        obtain ⟨before, rule, after, rfl, hexpand, hbefore⟩ := List.findSome?_eq_some_iff.mp hfound
        obtain ⟨rest, rfl, rfl⟩ := expand?_eq_some_iff.mp hexpand
        exact Rewrites.first fun other hother => expand?_eq_none_iff.mp (hbefore other hother)
  · intro h
    rw [normalize]
    cases h with
    | @first before after rule rest hbefore =>
        have hfound := List.findSome?_eq_some_iff.mpr ⟨before, rule, after, rfl,
          expand?_eq_some_iff.mpr ⟨rest, rfl, rfl⟩,
          fun other hother => expand?_eq_none_iff.mpr (hbefore other hother)⟩
        rw [hfound, Option.getD_some]
    | unchanged h =>
        have hnone := List.findSome?_eq_none_iff.mpr fun rule hrule =>
          expand?_eq_none_iff.mpr (h rule hrule)
        rw [hnone, Option.getD_none]

end AliasRule

namespace PathLabel

open Text

section Place

variable {line text rest raw : Text}

/-- In the line, indentation, a comment token and blanks stand in front of the text. -/
structure Introduces (line text indent token blanks : Text) : Prop where
  line_eq : line = indent ++ (token ++ (blanks ++ text))
  indent : ∀ c ∈ indent, c = ' ' ∨ c = '\t'
  token : token = ['/', '/'] ∨ token = ['#']
  blanks : ∀ c ∈ blanks, isBlank c = true

/-- The line is a comment with the text in it. -/
def IsCommentOf (line text : Text) : Prop :=
  ∃ indent token blanks, Introduces line text indent token blanks

theorem afterToken?_eq_some_iff :
    afterToken? line = some rest ↔ ∃ token, line = token ++ rest ∧
      (token = ['/', '/'] ∨ token = ['#']) := by
  constructor
  · intro h
    rw [afterToken?.eq_def] at h
    split at h
    · cases h
      exact ⟨_, rfl, Or.inl rfl⟩
    · cases h
      exact ⟨_, rfl, Or.inr rfl⟩
    · cases h
  · rintro ⟨token, rfl, rfl | rfl⟩ <;> rfl

/-- Behind its indentation and token, a comment has blanks and its text. -/
theorem Introduces.afterToken?_eq {indent token blanks : Text}
    (h : Introduces line text indent token blanks) :
    afterToken? (unindented line) = some (blanks ++ text) := by
  obtain ⟨rfl, hindent, htoken, -⟩ := h
  have hskip : unindented (indent ++ (token ++ (blanks ++ text))) = token ++ (blanks ++ text) := by
    rw [unindented, List.dropWhile_append_of_pos]
    · rcases htoken with rfl | rfl <;> rfl
    · intro c hc
      simpa using hindent c hc
  rw [hskip]
  exact afterToken?_eq_some_iff.mpr ⟨token, rfl, htoken⟩

/-- What is left of a line behind its indentation, its token and all blanks is the text of a
comment. -/
theorem isCommentOf_of_afterToken? (h : afterToken? (unindented line) = some rest) :
    IsCommentOf line (rest.dropWhile isBlank) := by
  obtain ⟨indent, hindent, hline⟩ := exists_indent line
  obtain ⟨token, hrest, htoken⟩ := afterToken?_eq_some_iff.mp h
  refine ⟨indent, token, rest.takeWhile isBlank, ?_, hindent, htoken, ?_⟩
  · rw [List.takeWhile_append_dropWhile, ← hrest]
    exact hline
  · exact List.all_eq_true.mp List.all_takeWhile

/-- A text that a path stands at the start of is what is left behind all blanks. -/
theorem dropWhile_of_isPathText {blanks start : Text} (hblanks : ∀ c ∈ blanks, isBlank c = true)
    (hstart : start <+: text) (h : IsPathText start) :
    (blanks ++ text).dropWhile isBlank = text := by
  obtain ⟨more, rfl⟩ := hstart
  have hplain := dropWhile_isBlank_of_isPathText h
  rw [List.dropWhile_append_of_pos hblanks, List.dropWhile_append, hplain, if_neg]
  rw [List.isEmpty_iff]
  rintro rfl
  rcases h with h | ⟨path, hpath, -⟩
  · exact h.ne_nil rfl
  · cases hpath

/-- A line names what stands at the start of its text, when a path does. -/
theorem rawPath?_of_isCommentOf {start : Text} (h : IsCommentOf line text) (hstart : start <+: text)
    (hshape : IsPathText start) : rawPath? line = markedPath? text := by
  obtain ⟨indent, token, blanks, hline⟩ := h
  rw [rawPath?_eq hline.afterToken?_eq, dropWhile_of_isPathText hline.blanks hstart hshape]

/-- A line names the longest path at the start of its text. -/
theorem rawPath?_eq_some_iff :
    rawPath? line = some raw ↔ ∃ text, IsCommentOf line text ∧ IsLongest IsPathText raw text := by
  constructor
  · intro h
    obtain ⟨rest, hrest, -⟩ := Option.bind_eq_some_iff.mp h
    refine ⟨rest.dropWhile isBlank, isCommentOf_of_afterToken? hrest, ?_⟩
    rw [← markedPath?_eq_some_iff, ← rawPath?_eq hrest]
    exact h
  · rintro ⟨text, htext, hlongest⟩
    rw [rawPath?_of_isCommentOf htext hlongest.isPrefix hlongest.holds]
    exact markedPath?_eq_some_iff.mpr hlongest

/-- Where a path stands at the start of the text of a line, a longest one does. -/
theorem exists_rawPath?_iff :
    (∃ raw, rawPath? line = some raw) ↔
      ∃ text, IsCommentOf line text ∧ ∃ start, start <+: text ∧ IsPathText start := by
  constructor
  · rintro ⟨raw, h⟩
    obtain ⟨text, htext, hlongest⟩ := rawPath?_eq_some_iff.mp h
    exact ⟨text, htext, raw, hlongest.isPrefix, hlongest.holds⟩
  · rintro ⟨text, htext, start, hstart, hshape⟩
    obtain ⟨raw, hraw, -⟩ := exists_markedPath? hstart hshape
    exact ⟨raw, (rawPath?_of_isCommentOf htext hstart hshape).trans hraw⟩

end Place

section LastDot

variable {text raw stem extension : Text}

/-- Behind the dot stands a word character, and no dot of the extension has one behind it. -/
structure EndsLast (extension : Text) : Prop where
  word : extension.head?.any isWord = true
  last : ∀ front back, extension = front ++ '.' :: back → back.head?.any isWord = false

/-- The raw path is cut out of the text: possibly behind an alias mark, it takes the run of path
characters up to the last dot that is not the first character of the run and has a word character
behind it, with the word characters that follow. -/
def IsCutAtLastDot (raw text : Text) : Prop :=
  ∃ mark body stem extension, (mark = [] ∨ mark = ['@']) ∧ text = mark ++ body ∧
    body.takeWhile isPathChar = stem ++ '.' :: extension ∧ stem ≠ [] ∧ EndsLast extension ∧
    raw = mark ++ (stem ++ '.' :: extension.takeWhile isWord)

/-- The dot that is chosen is the last that can be chosen. -/
theorem splitAtExtension_last {after run : Text}
    (hafter : ∀ front back, after = front ++ '.' :: back → back.head?.any isWord = false)
    (h : splitAtExtension after run = some (stem, extension)) :
    ∀ front back, extension = front ++ '.' :: back → back.head?.any isWord = false := by
  induction run generalizing after with
  | nil => cases h
  | cons c run ih =>
      rw [splitAtExtension] at h
      split at h
      · cases h
        exact hafter
      · rename_i hpassed
        apply ih _ h
        intro front back heq
        cases front with
        | nil =>
            obtain ⟨rfl, rfl⟩ := List.cons.inj heq
            have hrun : run ≠ [] := by
              rintro rfl
              cases h
            simpa [hrun] using hpassed
        | cons d front => exact hafter front back (List.cons.inj heq).2

/-- The path at the start of a text ends behind the last dot that can be chosen. -/
theorem isCutAtLastDot_of_pathToken? (h : pathToken? text = some raw) :
    ∃ stem extension, text.takeWhile isPathChar = stem ++ '.' :: extension ∧ stem ≠ [] ∧
      EndsLast extension ∧ raw = stem ++ '.' :: extension.takeWhile isWord := by
  obtain ⟨⟨stem, extension⟩, hsplit, rfl⟩ := Option.map_eq_some_iff.mp h
  obtain ⟨hrun, hstem, hword⟩ := splitAtExtension_spec hsplit
  rw [List.reverse_reverse, List.append_nil] at hrun
  refine ⟨stem, extension, hrun.symm, hstem, ⟨hword, ?_⟩, rfl⟩
  exact splitAtExtension_last (by simp) hsplit

/-- The longest path at the start of a text ends behind the last dot that can be chosen. -/
theorem IsLongest.isCutAtLastDot (h : IsLongest IsPathText raw text) : IsCutAtLastDot raw text := by
  rw [← markedPath?_eq_some_iff, markedPath?.eq_def] at h
  split at h
  · rename_i body
    obtain ⟨token, htoken, rfl⟩ := Option.map_eq_some_iff.mp h
    obtain ⟨stem, extension, hrun, hstem, hlast, rfl⟩ := isCutAtLastDot_of_pathToken? htoken
    exact ⟨['@'], body, stem, extension, Or.inr rfl, rfl, hrun, hstem, hlast, rfl⟩
  · obtain ⟨stem, extension, hrun, hstem, hlast, rfl⟩ := isCutAtLastDot_of_pathToken? h
    exact ⟨[], text, stem, extension, Or.inl rfl, rfl, hrun, hstem, hlast, rfl⟩

end LastDot

theorem ofLine?_eq_some_iff {rules : List AliasRule} {line : Text} {label : PathLabel} :
    ofLine? rules line = some label ↔
      rawPath? line = some label.raw ∧ AliasRule.normalize rules label.raw = label.path := by
  rw [ofLine?, Option.map_eq_some_iff]
  constructor
  · rintro ⟨raw, hraw, rfl⟩
    exact ⟨hraw, rfl⟩
  · rintro ⟨hraw, hpath⟩
    exact ⟨label.raw, hraw, by rw [hpath]⟩

theorem map_raw_ofLine? (rules : List AliasRule) (line : Text) :
    (ofLine? rules line).map raw = rawPath? line := by
  rw [ofLine?, Option.map_map]
  exact Option.map_id_apply ..

/-- Behind a comment token and a space, a text is named whole when all of it has the shape of a
path. -/
theorem rawPath?_comment_iff (path : Text) :
    rawPath? ("// ".toList ++ path) = some path ↔ IsPathText path := by
  have hfeed : ∀ c ∈ ['\n'], isLineBreak c = true := by
    simp only [List.mem_singleton, forall_eq]
    rfl
  rw [← Segment.rawPath?_append_ending _ hfeed, rawPath?_written]
  constructor
  · intro h
    exact (isPathText_of_markedPath? h).2
  · intro h
    rw [dropWhile_isBlank_of_isPathText h, markedPath?_eq_some_iff]
    exact isLongest_self h

/-- A line is an annotation exactly when it is a comment whose text begins with a path. The raw path
is then the longest start of the text with the shape of a path, which ends behind the last dot that
can be chosen, and the path is the raw one as the rules rewrite it. The ending of a line makes no
difference, and behind a comment token and a space exactly the texts of this shape are named
whole. -/
theorem ofLine?_exact (rules : List AliasRule) (line : Text) :
    ((ofLine? rules line).isSome = true ↔
        ∃ text, IsCommentOf line text ∧ ∃ start, start <+: text ∧ IsPathText start) ∧
      (∀ label, ofLine? rules line = some label ↔
        ∃ text, IsCommentOf line text ∧ IsLongest IsPathText label.raw text ∧
          AliasRule.Rewrites rules label.raw label.path) ∧
      (∀ raw text, IsLongest IsPathText raw text → IsCutAtLastDot raw text) ∧
      (∀ ending, IsEnding ending → ofLine? rules (line ++ ending) = ofLine? rules line) ∧
      ∀ path, (ofLine? rules ("// ".toList ++ path)).map raw = some path ↔ IsPathText path := by
  refine ⟨?_, ?_, fun raw text h => h.isCutAtLastDot, ?_, ?_⟩
  · rw [← exists_rawPath?_iff, ← Option.isSome_iff_exists, ofLine?, Option.isSome_map]
  · intro label
    rw [ofLine?_eq_some_iff, rawPath?_eq_some_iff, AliasRule.normalize_eq_iff]
    constructor
    · rintro ⟨⟨text, htext, hlongest⟩, hpath⟩
      exact ⟨text, htext, hlongest, hpath⟩
    · rintro ⟨text, htext, hlongest, hpath⟩
      exact ⟨⟨text, htext, hlongest⟩, hpath⟩
  · intro ending hending
    rw [ofLine?, ofLine?, Segment.rawPath?_append_ending line hending.isLineBreak]
  · intro path
    rw [map_raw_ofLine?]
    exact rawPath?_comment_iff path

/-- A marked path with two extensions and a dot behind it, indented, and rules of which the second
applies. -/
def markedLine : Text := "\t #\u00a0@/v1.2/user.test.ts. see".toList

def markedRules : List AliasRule :=
  [⟨"@/v2".toList, "old/".toList⟩, ⟨"@/".toList, "src/".toList⟩, ⟨"@".toList, []⟩]

/-- The path goes up to the last extension, the second rule rewrites it, and the break at the end of
the line makes no difference. -/
theorem markedLine_ofLine? :
    ofLine? markedRules markedLine =
        some ⟨"@/v1.2/user.test.ts".toList, "src/v1.2/user.test.ts".toList⟩ ∧
      (∃ text, IsCommentOf markedLine text ∧
        IsLongest IsPathText "@/v1.2/user.test.ts".toList text ∧
        IsCutAtLastDot "@/v1.2/user.test.ts".toList text) ∧
      AliasRule.Rewrites markedRules "@/v1.2/user.test.ts".toList "src/v1.2/user.test.ts".toList ∧
      ofLine? markedRules (markedLine ++ ['\r', '\n']) = ofLine? markedRules markedLine := by
  have hline : ofLine? markedRules markedLine =
      some ⟨"@/v1.2/user.test.ts".toList, "src/v1.2/user.test.ts".toList⟩ := by decide +kernel
  obtain ⟨-, hlabel, hcut, hending, -⟩ := ofLine?_exact markedRules markedLine
  obtain ⟨text, htext, hlongest, hrewrites⟩ := (hlabel _).mp hline
  exact ⟨hline, ⟨text, htext, hlongest, hcut _ _ hlongest⟩, hrewrites,
    hending _ (Or.inr (Or.inl rfl))⟩

end PathLabel

end TreeFold
