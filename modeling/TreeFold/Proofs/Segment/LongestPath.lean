import TreeFold.Proofs.Segment.PathText
import TreeFold.Proofs.Text.Line

/-!
# The path that a line names

A line names the longest text of an annotated path at the place where a path may stand, and no
path exactly when no such text begins there. Which dot is chosen, and where the extension ends,
follow from this.
-/

namespace TreeFold.PathLabel

open Text

/-- The token is a start of the text with the property `p`, and no such start is longer. -/
structure IsLongest (p : Text → Prop) (token text : Text) : Prop where
  isPrefix : token <+: text
  holds : p token
  longest : ∀ other, other <+: text → p other → other <+: token

variable {p : Text → Prop} {token text : Text}

theorem IsLongest.unique {other : Text} (h : IsLongest p token text)
    (h' : IsLongest p other text) : token = other := by
  apply List.IsPrefix.eq_of_length_le (h'.longest _ h.isPrefix h.holds)
  exact (h.longest _ h'.isPrefix h'.holds).length_le

/-- The whole text is the longest of its starts. -/
theorem isLongest_self (h : p text) : IsLongest p text text :=
  ⟨List.prefix_rfl, h, fun _ hother _ => hother⟩

/-- The longest start depends on the starts with the property only. -/
theorem isLongest_congr {text' : Text}
    (h : ∀ other, p other → (other <+: text ↔ other <+: text')) :
    IsLongest p token text ↔ IsLongest p token text' := by
  constructor
  · intro ht
    exact ⟨(h _ ht.holds).mp ht.isPrefix, ht.holds,
      fun other hother hp => ht.longest other ((h _ hp).mpr hother) hp⟩
  · intro ht
    exact ⟨(h _ ht.holds).mpr ht.isPrefix, ht.holds,
      fun other hother hp => ht.longest other ((h _ hp).mp hother) hp⟩

/-- A search that finds a start with the property, at least as long as any other, finds the
longest. -/
theorem isLongest_iff {found? : Option Text} (hfound : ∀ token ∈ found?, token <+: text ∧ p token)
    (hall : ∀ other, other <+: text → p other → ∃ token ∈ found?, other.length ≤ token.length)
    (token : Text) : found? = some token ↔ IsLongest p token text := by
  have hlongest : ∀ token ∈ found?, IsLongest p token text := by
    intro token htoken
    refine ⟨(hfound token htoken).1, (hfound token htoken).2, fun other hother hp => ?_⟩
    obtain ⟨token', htoken', hlength⟩ := hall other hother hp
    obtain rfl : token = token' := Option.some.inj (htoken.symm.trans htoken')
    exact List.prefix_of_prefix_length_le hother (hfound token htoken).1 hlength
  constructor
  · exact hlongest token
  · intro h
    obtain ⟨token', htoken', -⟩ := hall token h.isPrefix h.holds
    rw [h.unique (hlongest token' htoken')]
    exact htoken'

/-- A dot before a word character is never passed over for one further to the front. -/
theorem exists_splitAtExtension {after run stem extension : Text}
    (h : stem ++ '.' :: extension = run.reverse ++ after) (hstem : stem ≠ [])
    (hext : extension.head?.any isWord = true) (hlength : stem.length < run.length) :
    ∃ found rest, splitAtExtension after run = some (found, rest) ∧
      stem.length ≤ found.length := by
  induction run generalizing after with
  | nil => simp at hlength
  | cons c run ih =>
      rw [splitAtExtension]
      split
      · refine ⟨_, _, rfl, ?_⟩
        rw [List.length_reverse]
        exact Nat.le_of_lt_succ hlength
      · rename_i hpassed
        rw [List.reverse_cons, List.append_assoc, List.singleton_append] at h
        apply ih h
        -- At the dot itself the search would have stopped.
        by_contra hshort
        have heq : stem.length = run.reverse.length := by
          rw [List.length_reverse]
          exact Nat.le_antisymm (Nat.le_of_lt_succ hlength) (Nat.le_of_not_lt hshort)
        obtain ⟨rfl, htail⟩ := List.append_inj h heq
        obtain ⟨rfl, rfl⟩ := List.cons.inj htail
        simp [hext] at hpassed hstem
        exact hstem hpassed

theorem isPrefix_of_pathToken? (h : pathToken? text = some token) : token <+: text := by
  obtain ⟨⟨stem, after⟩, hsplit, rfl⟩ := Option.map_eq_some_iff.mp h
  obtain ⟨hrun, -, -⟩ := splitAtExtension_spec hsplit
  rw [List.reverse_reverse, List.append_nil] at hrun
  have hstart : stem ++ '.' :: after.takeWhile isWord <+: stem ++ '.' :: after := by
    apply (List.prefix_append_right_inj stem).mpr
    exact (List.prefix_cons_inj '.').mpr (List.takeWhile_prefix _)
  rw [hrun] at hstart
  exact hstart.trans (List.takeWhile_prefix _)

/-- No text with an extension at the start is longer than the one that is recognised. -/
theorem exists_pathToken? {other : Text} (hother : other <+: text) (h : IsExtended other) :
    ∃ token ∈ pathToken? text, other.length ≤ token.length := by
  obtain ⟨tail, hrun⟩ : ∃ tail, text.takeWhile PathLabel.isPathChar = other ++ tail := by
    obtain ⟨more, rfl⟩ := hother
    exact ⟨_, List.takeWhile_append_of_pos h.isPathChar⟩
  obtain ⟨stem, extension, hshape, ⟨hstem, -⟩, hne, hext⟩ := h
  have hhead : (extension ++ tail).head?.any isWord = true := by
    obtain ⟨c, rest, rfl⟩ := List.exists_cons_of_ne_nil hne
    exact hext c List.mem_cons_self
  have hwhole : stem ++ '.' :: (extension ++ tail) =
      (text.takeWhile PathLabel.isPathChar).reverse.reverse ++ [] := by
    rw [List.reverse_reverse, List.append_nil, hrun, hshape, List.append_assoc, List.cons_append]
  have hlength : stem.length < (text.takeWhile PathLabel.isPathChar).reverse.length := by
    rw [List.length_reverse, hrun, hshape]
    simp only [List.length_append, List.length_cons]
    omega
  obtain ⟨found, rest, hsplit, hle⟩ := exists_splitAtExtension hwhole hstem hhead hlength
  refine ⟨found ++ '.' :: rest.takeWhile isWord, ?_, ?_⟩
  · rw [pathToken?, hsplit]
    rfl
  obtain ⟨hparts, -, -⟩ := splitAtExtension_spec hsplit
  rw [List.reverse_reverse, List.append_nil, hrun] at hparts
  rcases List.append_eq_append_iff.mp hparts with ⟨ending, rfl, hending⟩ | ⟨more, rfl, -⟩
  · cases ending with
    | nil => simp
    | cons c word =>
        rw [List.cons_append] at hending
        obtain ⟨rfl, rfl⟩ := List.cons.inj hending
        -- Behind a later dot stand only word characters of the extension.
        have hword : ∀ c ∈ word, isWord c = true := by
          have hword : word <:+ found ++ '.' :: word :=
            (List.suffix_cons _ _).trans (List.suffix_append _ _)
          have hextension : extension <:+ found ++ '.' :: word := by
            rw [hshape]
            exact (List.suffix_cons _ _).trans (List.suffix_append _ _)
          have hsuffix : word <:+ extension := by
            apply List.suffix_of_suffix_length_le hword hextension
            have hcount := congrArg List.length hshape
            simp only [List.length_append, List.length_cons] at hcount
            omega
          exact fun c hc => hext c (hsuffix.subset hc)
        rw [List.takeWhile_append_of_pos hword]
        simp
  · simp only [List.length_append]
    omega

/-- The path at the start of a text, possibly behind an alias mark. -/
def markedPath? : Text → Option Text
  | '@' :: path => (pathToken? path).map ('@' :: ·)
  | path => pathToken? path

/-- Behind a comment token and blanks, a line names the path that stands there. -/
theorem rawPath?_eq {line rest : Text} (h : afterToken? (unindented line) = some rest) :
    rawPath? line = markedPath? (rest.dropWhile isBlank) := by
  rw [unindented] at h
  rw [rawPath?, h, Option.bind_some]
  rfl

theorem markedPath?_of_ne {text : Text} (h : text.head? ≠ some '@') :
    markedPath? text = pathToken? text := by
  rw [markedPath?.eq_def]
  split
  · exact absurd rfl h
  · rfl

theorem IsExtended.head?_ne_mark {text : Text} (h : IsExtended text) : text.head? ≠ some '@' := by
  intro hmark
  exact absurd (h.isPathChar '@' (List.mem_of_mem_head? hmark)) (by decide)

/-- Behind an alias mark the annotated paths are the marked ones. -/
theorem isPathText_mark_iff {path : Text} : IsPathText ('@' :: path) ↔ IsExtended path := by
  constructor
  · rintro (h | ⟨path, heq, h⟩)
    · exact absurd rfl h.head?_ne_mark
    · rwa [(List.cons.inj heq).2]
  · intro h
    exact Or.inr ⟨path, rfl, h⟩

/-- The characters of an annotated path. -/
theorem IsPathText.isPathChar_or {text : Text} (h : IsPathText text) :
    ∀ c ∈ text, PathLabel.isPathChar c = true ∨ c = '@' := by
  intro c hc
  rcases h with h | ⟨path, rfl, h⟩
  · exact Or.inl (h.isPathChar c hc)
  · rcases List.mem_cons.mp hc with rfl | hc
    · exact Or.inr rfl
    · exact Or.inl (h.isPathChar c hc)

/-- An annotated path has no blank at its front. -/
theorem dropWhile_isBlank_of_isPathText {text : Text} (h : IsPathText text) :
    text.dropWhile isBlank = text := by
  apply List.dropWhile_eq_self_iff.mpr
  intro hlength hblank
  rcases h.isPathChar_or _ (List.getElem_mem hlength) with hchar | hmark
  · rw [isPathChar_of_isBlank hblank] at hchar
    cases hchar
  · rw [hmark] at hblank
    cases hblank

theorem isPathText_of_markedPath? (h : markedPath? text = some token) :
    token <+: text ∧ IsPathText token := by
  rw [markedPath?.eq_def] at h
  split at h
  · obtain ⟨path, hpath, rfl⟩ := Option.map_eq_some_iff.mp h
    constructor
    · exact (List.prefix_cons_inj '@').mpr (isPrefix_of_pathToken? hpath)
    · exact isPathText_mark_iff.mpr (isExtended_of_pathToken? hpath)
  · exact ⟨isPrefix_of_pathToken? h, Or.inl (isExtended_of_pathToken? h)⟩

theorem exists_markedPath? {other : Text} (hother : other <+: text) (h : IsPathText other) :
    ∃ token ∈ markedPath? text, other.length ≤ token.length := by
  rcases h with h | ⟨path, rfl, h⟩
  · have hmark : text.head? ≠ some '@' := by
      obtain ⟨more, rfl⟩ := hother
      rw [List.head?_append_of_ne_nil _ h.ne_nil]
      exact h.head?_ne_mark
    rw [markedPath?_of_ne hmark]
    exact exists_pathToken? hother h
  · obtain ⟨more, rfl⟩ := hother
    obtain ⟨token, htoken, hlength⟩ := exists_pathToken? (List.prefix_append path more) h
    refine ⟨'@' :: token, ?_, Nat.succ_le_succ hlength⟩
    exact Option.map_eq_some_iff.mpr ⟨token, htoken, rfl⟩

/-- The path at the start of a text is the longest text of an annotated path there. -/
theorem markedPath?_eq_some_iff : markedPath? text = some token ↔ IsLongest IsPathText token text :=
  isLongest_iff (fun _ => isPathText_of_markedPath?) (fun _ => exists_markedPath?) token

/-- No path stands at the start of a text when no start has the shape of one. -/
theorem markedPath?_eq_none_iff :
    markedPath? text = none ↔ ∀ other, other <+: text → ¬IsPathText other := by
  constructor
  · intro h other hother hshape
    obtain ⟨token, htoken, -⟩ := exists_markedPath? hother hshape
    rw [h] at htoken
    cases htoken
  · intro h
    apply Option.eq_none_iff_forall_ne_some.mpr
    intro token htoken
    obtain ⟨hfront, hshape⟩ := isPathText_of_markedPath? htoken
    exact h token hfront hshape

/-- What cannot stand in a path does not change the path in front of it. -/
theorem markedPath?_append {rest : Text}
    (hrest : ∀ c ∈ rest.head?, PathLabel.isPathChar c = false ∧ c ≠ '@') :
    markedPath? (text ++ rest) = markedPath? text := by
  ext token
  rw [markedPath?_eq_some_iff, markedPath?_eq_some_iff]
  apply isLongest_congr
  intro other hother
  constructor
  · rintro ⟨tail, htail⟩
    rcases List.append_eq_append_iff.mp htail with ⟨more, rfl, -⟩ | ⟨more, rfl, hmore⟩
    · exact List.prefix_append _ _
    · cases more with
      | nil => simp
      | cons c more =>
          have hc : PathLabel.isPathChar c = false ∧ c ≠ '@' := by
            apply hrest
            rw [hmore]
            rfl
          rcases hother.isPathChar_or c (by simp) with hchar | hmark
          · rw [hc.1] at hchar
            cases hchar
          · exact absurd hmark hc.2
  · intro h
    exact h.trans (List.prefix_append _ _)

/-- An annotation written for a text names the longest path at the start of the text. -/
theorem rawPath?_written (text : Text) :
    rawPath? ("// ".toList ++ text ++ ['\n']) = markedPath? (text.dropWhile isBlank) := by
  have hafter : afterToken? (unindented ("// ".toList ++ text ++ ['\n'])) =
      some (' ' :: (text ++ ['\n'])) := rfl
  rw [rawPath?_eq hafter, List.dropWhile_cons_of_pos (by decide), List.dropWhile_append]
  split
  · rename_i hblank
    rw [List.isEmpty_iff.mp hblank]
    rfl
  · apply markedPath?_append
    intro c hc
    cases hc
    decide

end TreeFold.PathLabel
