import Mathlib.Data.List.TakeWhile
import TreeFold.Proofs.Text.Word
import TreeFold.Segment

/-!
# The texts of annotated paths

An annotated path is a run of path characters with an extension, possibly behind an alias mark.
What is recognised in a line has this form, and a text of this form is recognised whole when the
character after it cannot belong to a path.
-/

namespace TreeFold.PathLabel

open Text

/-- A run of path characters that ends in a dot and word characters, with a character before the
dot. -/
def IsExtended (text : Text) : Prop :=
  ∃ stem extension, text = stem ++ '.' :: extension ∧
    (stem ≠ [] ∧ ∀ c ∈ stem, isPathChar c = true) ∧
    (extension ≠ [] ∧ ∀ c ∈ extension, isWord c = true)

/-- The whole text has the shape of an annotated path. -/
def IsPathText (text : Text) : Prop :=
  IsExtended text ∨ ∃ path, text = '@' :: path ∧ IsExtended path

theorem isPathChar_of_isWord {c : Char} (h : isWord c = true) : isPathChar c = true := by
  simp [isPathChar, h]

/-- A class without word characters and marks has no path characters. -/
theorem isPathChar_eq_false {p : Char → Bool} (hmarks : ['-', '.', '/'].any p = false) {c : Char}
    (hword : isWord c = false) (h : p c = true) : isPathChar c = false := by
  have hmark : c ∉ ['-', '.', '/'] := by
    intro hmem
    have hany := List.any_eq_true.mpr ⟨c, hmem, h⟩
    rw [hmarks] at hany
    cases hany
  simp only [List.mem_cons, List.not_mem_nil, or_false, not_or] at hmark
  simp [isPathChar, hword, hmark]

theorem isPathChar_of_isBlank {c : Char} (h : isBlank c = true) : isPathChar c = false :=
  isPathChar_eq_false (by decide) (isWord_of_isBlank h) h

theorem isPathChar_of_isLineBreak {c : Char} (h : isLineBreak c = true) : isPathChar c = false :=
  isPathChar_eq_false (by decide) (isWord_of_isLineBreak h) h

theorem ne_dot_of_isWord {c : Char} (h : isWord c = true) : c ≠ '.' := by
  rintro rfl
  exact absurd h (by decide)

theorem isExtended_append (stem extension : Text)
    (hstem : stem ≠ [] ∧ stem.all isPathChar = true)
    (hext : extension ≠ [] ∧ extension.all isWord = true) :
    IsExtended (stem ++ '.' :: extension) :=
  ⟨stem, extension, rfl, hstem.imp_right List.all_eq_true.mp, hext.imp_right List.all_eq_true.mp⟩

theorem IsExtended.ne_nil {text : Text} (h : IsExtended text) : text ≠ [] := by
  obtain ⟨stem, extension, rfl, -, -⟩ := h
  simp

theorem IsExtended.isPathChar {text : Text} (h : IsExtended text) :
    ∀ c ∈ text, isPathChar c = true := by
  obtain ⟨stem, extension, rfl, hstem, hext⟩ := h
  intro c hc
  rcases List.mem_append.mp hc with hc | hc
  · exact hstem.2 c hc
  · rcases List.mem_cons.mp hc with rfl | hc
    · rfl
    · exact isPathChar_of_isWord (hext.2 c hc)

/-- The parts around the dot that is chosen make up the run, and the dot stands inside it. -/
theorem splitAtExtension_spec {after run stem extension : Text}
    (h : splitAtExtension after run = some (stem, extension)) :
    stem ++ '.' :: extension = run.reverse ++ after ∧ stem ≠ [] ∧
      extension.head?.any isWord = true := by
  induction run generalizing after with
  | nil => simp [splitAtExtension] at h
  | cons c rest ih =>
      rw [splitAtExtension] at h
      split at h
      · rename_i hc
        simp only [Bool.and_eq_true, decide_eq_true_eq, Bool.not_eq_true',
          List.isEmpty_eq_false_iff] at hc
        obtain ⟨⟨rfl, hrest⟩, hword⟩ := hc
        cases h
        exact ⟨by simp, by simpa using hrest, hword⟩
      · simpa using ih h

/-- A dot is chosen when word characters, and only these, stand between it and the end of the
run. -/
theorem splitAtExtension_word {stem : Text} (hstem : stem ≠ []) (word after : Text)
    (hword : ∀ c ∈ word, isWord c = true)
    (hafter : (word.reverse ++ after).head?.any isWord = true) :
    splitAtExtension after (word ++ '.' :: stem.reverse) =
      some (stem, word.reverse ++ after) := by
  induction word generalizing after with
  | nil =>
      rw [List.reverse_nil, List.nil_append] at hafter
      simp [splitAtExtension, hafter, hstem]
  | cons c word ih =>
      have hc : c ≠ '.' := ne_dot_of_isWord (hword c List.mem_cons_self)
      rw [List.reverse_cons, List.append_assoc, List.singleton_append] at hafter ⊢
      rw [List.cons_append, splitAtExtension, if_neg (by simp [hc])]
      exact ih (c :: after) (fun d hd => hword d (List.mem_cons_of_mem _ hd)) hafter

/-- What is recognised as a path has an extension. -/
theorem isExtended_of_pathToken? {text token : Text} (h : pathToken? text = some token) :
    IsExtended token := by
  obtain ⟨⟨stem, after⟩, hsplit, rfl⟩ := Option.map_eq_some_iff.mp h
  obtain ⟨hrun, hstem, hafter⟩ := splitAtExtension_spec hsplit
  rw [List.reverse_reverse, List.append_nil] at hrun
  have hchars : ∀ c ∈ stem ++ '.' :: after, PathLabel.isPathChar c = true := by
    rw [hrun]
    exact List.all_eq_true.mp List.all_takeWhile
  refine ⟨stem, after.takeWhile isWord, rfl, ⟨hstem, ?_⟩, ?_, ?_⟩
  · exact fun c hc => hchars c (List.mem_append_left _ hc)
  · cases after with
    | nil => simp at hafter
    | cons c rest =>
        have hc : isWord c = true := hafter
        simp [hc]
  · exact List.all_eq_true.mp List.all_takeWhile

/-- A path with an extension is recognised whole before a character that cannot go on a path. -/
theorem pathToken?_append {token rest : Text} (h : IsExtended token)
    (hrest : ∀ c ∈ rest.head?, PathLabel.isPathChar c = false) :
    pathToken? (token ++ rest) = some token := by
  have hrun : (token ++ rest).takeWhile PathLabel.isPathChar = token := by
    rw [List.takeWhile_append_of_pos h.isPathChar]
    cases rest with
    | nil => simp
    | cons c rest => simp [hrest c rfl]
  obtain ⟨stem, extension, rfl, ⟨hstem, -⟩, hne, hext⟩ := h
  have hhead : extension.head?.any isWord = true := by
    obtain ⟨c, tail, rfl⟩ := List.exists_cons_of_ne_nil hne
    exact hext c List.mem_cons_self
  have hsplit := splitAtExtension_word hstem extension.reverse []
    (by simpa using hext) (by simpa using hhead)
  rw [List.reverse_reverse, List.append_nil] at hsplit
  rw [pathToken?, hrun, List.reverse_append, List.reverse_cons, List.append_assoc,
    List.singleton_append, hsplit, Option.map_some]
  simp only [List.takeWhile_eq_self_iff.mpr hext]

/-- What a line names has the shape of an annotated path. -/
theorem isPathText_of_rawPath? {line raw : Text} (h : rawPath? line = some raw) :
    IsPathText raw := by
  obtain ⟨rest, -, hraw⟩ := Option.bind_eq_some_iff.mp h
  split at hraw
  · obtain ⟨path, hpath, rfl⟩ := Option.map_eq_some_iff.mp hraw
    exact Or.inr ⟨path, rfl, isExtended_of_pathToken? hpath⟩
  · exact Or.inl (isExtended_of_pathToken? hraw)

/-- A path behind a comment token and a blank is named whole. -/
theorem rawPath?_comment {raw rest : Text} (h : IsPathText raw)
    (hrest : ∀ c ∈ rest.head?, PathLabel.isPathChar c = false) :
    rawPath? ("// ".toList ++ raw ++ rest) = some raw := by
  have hafter : afterToken? (("// ".toList ++ raw ++ rest).dropWhile fun c => c = ' ' || c = '\t') =
      some (' ' :: (raw ++ rest)) := rfl
  rw [rawPath?, hafter, Option.bind_some, List.dropWhile_cons_of_pos (by decide)]
  rcases h with h | ⟨path, rfl, h⟩
  · obtain ⟨c, tail, rfl⟩ := List.exists_cons_of_ne_nil h.ne_nil
    have hc : PathLabel.isPathChar c = true := h.isPathChar c (by simp)
    have hblank : isBlank c = false := by
      by_contra hb
      rw [isPathChar_of_isBlank (by simpa using hb)] at hc
      cases hc
    have hmark : c ≠ '@' := by
      rintro rfl
      exact absurd hc (by decide)
    rw [List.cons_append, List.dropWhile_cons_of_neg (by simp [hblank])]
    split
    · rename_i heq
      exact absurd (List.cons.inj heq).1 hmark
    · exact pathToken?_append h hrest
  · rw [List.cons_append, List.dropWhile_cons_of_neg (by decide)]
    simp only [pathToken?_append h hrest, Option.map_some]

end TreeFold.PathLabel
