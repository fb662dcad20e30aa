import TreeFold.Proofs.Number.Integer

/-!
# The characters of numbers

The text of a number has ASCII letters and digits, signs and points only. So a text with any other
character is no number.
-/

namespace TreeFold.Number

/-- Whether a character may stand in the text of a number. -/
def isNumberChar (c : Char) : Bool :=
  c.isAlphanum || c = '.' || c = '+' || c = '-'

variable {text : Text}

theorem isNumberChar_of_isAlpha {c : Char} (h : c.isAlpha = true) : isNumberChar c = true := by
  simp [isNumberChar, Char.isAlphanum, h]

theorem isNumberChar_of_isDigit {c : Char} (h : c.isDigit = true) : isNumberChar c = true := by
  simp [isNumberChar, Char.isAlphanum, h]

/-- A sign makes no difference. -/
theorem isNumberChar_of_splitSign (h : ∀ c ∈ (splitSign text).2, isNumberChar c = true) :
    ∀ c ∈ text, isNumberChar c = true := by
  unfold splitSign at h
  split at h
  · exact List.forall_mem_cons.mpr ⟨rfl, h⟩
  · exact List.forall_mem_cons.mpr ⟨rfl, h⟩
  · exact h

theorem isNumberChar_of_ofDigits? {n : Nat} (h : ofDigits? 10 text = some n) :
    ∀ c ∈ text, isNumberChar c = true :=
  fun c hc => isNumberChar_of_isDigit (isDigit_of_ofDigits? h c hc)

theorem isNumberChar_of_parseInteger? {value : Int} (h : parseInteger? text = some value) :
    ∀ c ∈ text, isNumberChar c = true := by
  obtain ⟨magnitude, -, hmagnitude, -⟩ := parseInteger?_eq_some h
  exact isNumberChar_of_splitSign (isNumberChar_of_ofDigits? hmagnitude)

/-- What is a letter in lower case is a letter. -/
theorem isAlpha_of_toLower {c : Char} (h : c.toLower.isAlpha = true) : c.isAlpha = true := by
  by_cases hupper : c.isUpper = true
  · exact Bool.or_eq_true_iff.mpr (Or.inl hupper)
  · have hsame : c.toLower = c := dif_neg fun hrange => hupper (decide_eq_true hrange)
    rwa [hsame] at h

/-- The characters of a word in any case are letters when those of the word are. -/
theorem isAlpha_of_map_toLower {word : Text} (h : text.map Char.toLower = word)
    (hword : word.all Char.isAlpha = true) : ∀ c ∈ text, c.isAlpha = true := by
  intro c hc
  exact isAlpha_of_toLower (List.all_eq_true.mp hword _ (h ▸ List.mem_map_of_mem hc))

theorem isNumberChar_of_sameLetters {word : String} (h : sameLetters text word = true)
    (hword : word.toList.all Char.isAlpha = true) : ∀ c ∈ text, isNumberChar c = true :=
  fun c hc => isNumberChar_of_isAlpha (isAlpha_of_map_toLower (of_decide_eq_true h) hword c hc)

theorem isNumberChar_of_exponentOf? {exponent : Int} (h : exponentOf? text = some exponent) :
    ∀ c ∈ text, isNumberChar c = true := by
  cases text with
  | nil => exact fun c hc => absurd hc List.not_mem_nil
  | cons mark rest =>
      rw [exponentOf?] at h
      split at h
      · rename_i hmark
        have hletter : isNumberChar mark = true := by
          rcases Bool.or_eq_true_iff.mp hmark with hmark | hmark <;>
            (obtain rfl := of_decide_eq_true hmark; rfl)
        refine List.forall_mem_cons.mpr ⟨hletter, ?_⟩
        generalize hsigned : splitSign rest = signed at h
        obtain ⟨negative, digits⟩ := signed
        by_cases hne : digits = []
        · simp [hne] at h
        · simp only [hne, if_false, Option.bind_eq_bind, Option.bind_eq_some_iff] at h
          obtain ⟨magnitude, hmagnitude, -⟩ := h
          apply isNumberChar_of_splitSign
          rw [hsigned]
          exact isNumberChar_of_ofDigits? hmagnitude
      · cases h

/-- Digits at the start are characters of a number, so the others decide. -/
theorem isNumberChar_of_dropWhile (h : ∀ c ∈ text.dropWhile Char.isDigit, isNumberChar c = true) :
    ∀ c ∈ text, isNumberChar c = true := by
  intro c hc
  rw [← List.takeWhile_append_dropWhile (p := Char.isDigit) (l := text)] at hc
  rcases List.mem_append.mp hc with hc | hc
  · exact isNumberChar_of_isDigit (List.all_eq_true.mp List.all_takeWhile c hc)
  · exact h c hc

/-- What stands behind the whole and the fraction of a decimal. -/
def behindFraction (text : Text) : Text :=
  match text.dropWhile Char.isDigit with
  | '.' :: behind => behind.dropWhile Char.isDigit
  | behind => behind

theorem behindFraction_of_point {behind : Text}
    (h : text.dropWhile Char.isDigit = '.' :: behind) :
    behindFraction text = behind.dropWhile Char.isDigit := by
  simp [behindFraction, h]

theorem behindFraction_of_ne (h : ∀ behind, text.dropWhile Char.isDigit ≠ '.' :: behind) :
    behindFraction text = text.dropWhile Char.isDigit := by
  rw [behindFraction]
  split
  · exact absurd ‹_› (h _)
  · rfl

/-- Behind the whole and the fraction of a decimal there is an exponent. -/
theorem exists_exponentOf? {negative : Bool} {x : Binary64}
    (h : parseDecimal? negative text = some x) :
    ∃ exponent, exponentOf? (behindFraction text) = some exponent := by
  rw [parseDecimal?] at h
  split at h
  rename_i fraction rest hparts
  have hrest : behindFraction text = rest := by
    split at hparts
    · rename_i behind hpoint
      rw [behindFraction_of_point hpoint]
      exact (Prod.mk.inj hparts).2
    · rename_i hnone
      rw [behindFraction_of_ne hnone]
      exact (Prod.mk.inj hparts).2
  rw [hrest]
  split at h
  · cases h
  · simp only [Option.bind_eq_bind, Option.bind_eq_some_iff] at h
    obtain ⟨exponent, hexponent, -⟩ := h
    exact ⟨exponent, hexponent⟩

theorem isNumberChar_of_parseDecimal? {negative : Bool} {x : Binary64}
    (h : parseDecimal? negative text = some x) : ∀ c ∈ text, isNumberChar c = true := by
  obtain ⟨exponent, hexponent⟩ := exists_exponentOf? h
  have hbehind := isNumberChar_of_exponentOf? hexponent
  apply isNumberChar_of_dropWhile
  by_cases hpoint : ∃ behind, text.dropWhile Char.isDigit = '.' :: behind
  · obtain ⟨behind, hpoint⟩ := hpoint
    rw [behindFraction_of_point hpoint] at hbehind
    rw [hpoint]
    exact List.forall_mem_cons.mpr ⟨rfl, isNumberChar_of_dropWhile hbehind⟩
  · rw [behindFraction_of_ne (not_exists.mp hpoint)] at hbehind
    exact hbehind

/-- The characters of a floating point number. -/
theorem isNumberChar_of_parseFloat? {x : Binary64} (h : parseFloat? text = some x) :
    ∀ c ∈ text, isNumberChar c = true := by
  rw [parseFloat?] at h
  apply isNumberChar_of_splitSign
  generalize splitSign text = signed at h ⊢
  obtain ⟨negative, rest⟩ := signed
  change (if sameLetters rest "inf" || sameLetters rest "infinity" then some (.infinite negative)
    else if sameLetters rest "nan" then some .nan else parseDecimal? negative rest) = some x at h
  split at h
  · rename_i hword
    rcases Bool.or_eq_true_iff.mp hword with hword | hword
    · exact isNumberChar_of_sameLetters hword (by decide)
    · exact isNumberChar_of_sameLetters hword (by decide)
  · split at h
    · exact isNumberChar_of_sameLetters ‹_› (by decide)
    · exact isNumberChar_of_parseDecimal? h

end TreeFold.Number
