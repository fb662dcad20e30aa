import Mathlib.Data.List.Induction
import Mathlib.Data.Nat.Basic
import TreeFold.Number.Text

/-!
# Integers as text

The text of an integer is its canonical form: no plus, no zeros in front of other digits, and no
minus before zero. So an integer that is read keeps its text exactly when the text is canonical.
-/

namespace TreeFold.Number

variable {c : Char} {digits text : Text} {n : Nat}

section Digits

/-- A digit below ten is a decimal digit, and is written as it was. -/
theorem digitOf?_lt_ten (h : ofDigits?.digitOf? c = some n) (hn : n < 10) :
    c.isDigit = true ∧ n.digitChar = c := by
  rw [ofDigits?.digitOf?] at h
  split at h
  · rename_i hdigit
    have hrange := Char.isDigit_iff_toNat.mp hdigit
    change 48 ≤ c.toNat ∧ c.toNat ≤ 57 at hrange
    have hvalue : c.toNat - 48 = n := Option.some.inj h
    refine ⟨hdigit, Char.toNat_inj.mp ?_⟩
    rw [Nat.toNat_digitChar_of_lt_ten hn]
    omega
  · -- A letter stands for ten or more.
    split at h
    · have hvalue : c.toNat - 'a'.toNat + 10 = n := Option.some.inj h
      omega
    · split at h
      · have hvalue : c.toNat - 'A'.toNat + 10 = n := Option.some.inj h
        omega
      · cases h

theorem ofDigits?_concat_eq_some (h : ofDigits? 10 (digits ++ [c]) = some n) :
    ∃ value digit, ofDigits? 10 digits = some value ∧ ofDigits?.digitOf? c = some digit ∧
      digit < 10 ∧ n = value * 10 + digit := by
  rw [ofDigits?, List.foldl_append, List.foldl_cons, List.foldl_nil] at h
  simp only [Option.bind_eq_bind, Option.bind_eq_some_iff] at h
  obtain ⟨value, hvalue, digit, hdigit, h⟩ := h
  split at h
  · exact ⟨value, digit, hvalue, hdigit, ‹_›, (Option.some.inj h).symm⟩
  · cases h

theorem isDigit_of_ofDigits? (h : ofDigits? 10 digits = some n) :
    ∀ c ∈ digits, c.isDigit = true := by
  induction digits using List.reverseRecOn generalizing n with
  | nil => exact fun c hc => absurd hc List.not_mem_nil
  | append_singleton digits last ih =>
      obtain ⟨value, digit, hvalue, hdigit, hlt, -⟩ := ofDigits?_concat_eq_some h
      intro c hc
      rcases List.mem_append.mp hc with hc | hc
      · exact ih hvalue c hc
      · rw [List.mem_singleton.mp hc]
        exact (digitOf?_lt_ten hdigit hlt).1

/-- Digits without a zero in front are the digits of their value. -/
theorem toDigits_of_ofDigits? (h : ofDigits? 10 digits = some n) (hne : digits ≠ [])
    (hzero : digits.head? ≠ some '0') : 0 < n ∧ Nat.toDigits 10 n = digits := by
  induction digits using List.reverseRecOn generalizing n with
  | nil => exact absurd rfl hne
  | append_singleton front last ih =>
      obtain ⟨value, digit, hvalue, hdigit, hlt, rfl⟩ := ofDigits?_concat_eq_some h
      have hlast : Nat.toDigits 10 digit = [last] := by
        rw [Nat.toDigits_of_lt_base hlt, (digitOf?_lt_ten hdigit hlt).2]
      cases front with
      | nil =>
          obtain rfl : value = 0 := (Option.some.inj hvalue).symm
          have hpos : 0 < digit := by
            rcases Nat.eq_zero_or_pos digit with rfl | hpos
            · rw [Nat.toDigits_zero] at hlast
              rw [← hlast] at hzero
              exact absurd rfl hzero
            · exact hpos
          rw [Nat.zero_mul, Nat.zero_add]
          exact ⟨hpos, hlast⟩
      | cons first front =>
          obtain ⟨hpos, hfront⟩ := ih hvalue (List.cons_ne_nil _ _) hzero
          refine ⟨by omega, ?_⟩
          rw [Nat.mul_comm, ← Nat.toDigits_append_toDigits (by decide) hpos hlt, hfront, hlast]

/-- The digits of a positive number have no zero in front. -/
theorem head?_toDigits (h : 0 < n) : (Nat.toDigits 10 n).head? ≠ some '0' := by
  induction n using Nat.strongRecOn with
  | ind n ih =>
      by_cases hlt : n < 10
      · rw [Nat.toDigits_of_lt_base hlt, List.head?_cons]
        intro hzero
        have hchar := Nat.toNat_digitChar_of_lt_ten hlt
        rw [Option.some.inj hzero] at hchar
        have hcode : '0'.toNat = 48 := rfl
        omega
      · have hfront := ih (n / 10) (by omega) (by omega)
        rw [Nat.toDigits_of_base_le (by decide) (by omega)]
        cases hdigits : Nat.toDigits 10 (n / 10) with
        | nil => exact absurd hdigits Nat.toDigits_ne_nil
        | cons first rest =>
            rw [hdigits] at hfront
            exact hfront

/-- Digits are those of their value when they are a single zero, or have none in front. -/
theorem toDigits_eq_iff (h : ofDigits? 10 digits = some n) (hne : digits ≠ []) :
    Nat.toDigits 10 n = digits ↔ digits = ['0'] ∨ digits.head? ≠ some '0' := by
  constructor
  · rintro rfl
    rcases Nat.eq_zero_or_pos n with rfl | hpos
    · exact Or.inl (Nat.toDigits_zero 10)
    · exact Or.inr (head?_toDigits hpos)
  · rintro (rfl | hzero)
    · obtain rfl : n = 0 := (Option.some.inj h).symm
      exact Nat.toDigits_zero 10
    · exact (toDigits_of_ofDigits? h hne hzero).2

end Digits

section Integers

theorem parseInteger?_eq_some {value : Int} (h : parseInteger? text = some value) :
    ∃ magnitude, (splitSign text).2 ≠ [] ∧ ofDigits? 10 (splitSign text).2 = some magnitude ∧
      value = if (splitSign text).1 then -(magnitude : Int) else magnitude := by
  rw [parseInteger?, ofSigned?] at h
  generalize splitSign text = signed at h ⊢
  obtain ⟨negative, digits⟩ := signed
  by_cases hne : digits = []
  · simp [hne] at h
  · simp only [hne, if_false, Option.bind_eq_bind, Option.bind_eq_some_iff] at h
    obtain ⟨magnitude, hmagnitude, h⟩ := h
    refine ⟨magnitude, hne, hmagnitude, ?_⟩
    change (if inRange (if negative then -(magnitude : Int) else magnitude) = true then
      some (if negative then -(magnitude : Int) else magnitude) else none) = some value at h
    exact (Option.some.inj (Option.ite_none_right_eq_some.mp h).2).symm

theorem integerText_natCast (n : Nat) : integerText n = Nat.toDigits 10 n := by
  change (toString n).toList = _
  rw [Nat.toString_eq_ofList_toDigits, String.toList_ofList]

theorem integerText_neg (h : 0 < n) : integerText (-(n : Int)) = '-' :: Nat.toDigits 10 n := by
  obtain ⟨m, rfl⟩ := Nat.exists_eq_succ_of_ne_zero (Nat.ne_of_gt h)
  change ("-" ++ toString (m + 1)).toList = _
  rw [String.toList_append, Nat.toString_eq_ofList_toDigits, String.toList_ofList,
    String.toList_ofList]
  rfl

/-- An integer is written without a plus, without zeros in front of other digits, and without a
minus before zero. -/
def IsCanonical : Text → Prop
  | '-' :: digits => digits.head? ≠ some '0'
  | '+' :: _ => False
  | text => text = ['0'] ∨ text.head? ≠ some '0'

theorem splitSign_of_ne {first : Char} {rest : Text} (hminus : first ≠ '-') (hplus : first ≠ '+') :
    splitSign (first :: rest) = (false, first :: rest) := by
  unfold splitSign
  split
  · rename_i heq
    exact absurd (List.cons.inj heq).1 hminus
  · rename_i heq
    exact absurd (List.cons.inj heq).1 hplus
  · rfl

theorem isCanonical_of_ne {first : Char} {rest : Text} (hminus : first ≠ '-')
    (hplus : first ≠ '+') :
    IsCanonical (first :: rest) ↔ first :: rest = ['0'] ∨ (first :: rest).head? ≠ some '0' := by
  unfold IsCanonical
  split
  · rename_i heq
    exact absurd (List.cons.inj heq).1 hminus
  · rename_i heq
    exact absurd (List.cons.inj heq).1 hplus
  · rfl

/-- Digits begin with no sign. -/
theorem toDigits_ne_cons {sign : Char} (hsign : sign.isDigit = false) (n : Nat) (rest : Text) :
    Nat.toDigits 10 n ≠ sign :: rest := by
  intro heq
  have hdigit : sign.isDigit = true :=
    Nat.isDigit_of_mem_toDigits (by decide) (Nat.le_refl 10) (heq ▸ List.mem_cons_self)
  rw [hsign] at hdigit
  cases hdigit

/-- An integer that is read keeps its text when that is canonical. -/
theorem integerText_eq_iff {value : Int} (h : parseInteger? text = some value) :
    integerText value = text ↔ IsCanonical text := by
  obtain ⟨magnitude, hne, hmagnitude, hvalue⟩ := parseInteger?_eq_some h
  cases text with
  | nil => exact absurd rfl hne
  | cons first rest =>
      by_cases hminus : first = '-'
      · subst hminus
        change value = -(magnitude : Int) at hvalue
        change ofDigits? 10 rest = some magnitude at hmagnitude
        change integerText value = '-' :: rest ↔ rest.head? ≠ some '0'
        rw [hvalue]
        rcases Nat.eq_zero_or_pos magnitude with rfl | hpos
        · have hzero : ¬rest.head? ≠ some '0' := fun hhead =>
            absurd (toDigits_of_ofDigits? hmagnitude hne hhead).1 (Nat.lt_irrefl 0)
          refine iff_of_false ?_ hzero
          exact integerText_natCast 0 ▸ toDigits_ne_cons rfl 0 rest
        · rw [integerText_neg hpos, List.cons_inj_right, toDigits_eq_iff hmagnitude hne]
          refine or_iff_right ?_
          rintro rfl
          obtain rfl : magnitude = 0 := (Option.some.inj hmagnitude).symm
          exact absurd hpos (Nat.lt_irrefl 0)
      · by_cases hplus : first = '+'
        · subst hplus
          refine iff_of_false ?_ id
          change value = (magnitude : Int) at hvalue
          rw [hvalue, integerText_natCast]
          exact toDigits_ne_cons rfl _ _
        · rw [splitSign_of_ne hminus hplus] at hne hmagnitude hvalue
          change value = (magnitude : Int) at hvalue
          rw [hvalue, integerText_natCast, toDigits_eq_iff hmagnitude hne,
            isCanonical_of_ne hminus hplus]

end Integers

end TreeFold.Number
