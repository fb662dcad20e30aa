import Mathlib.Tactic.Common
import TreeFold.Text.Utf8

/-!
# Reading what was written

The bytes of a text are read back as the text. Each character is read from its own bytes alone,
so the statement about a text follows character by character. For the same reason bytes that end
with a whole character can be read apart from what comes after them.
-/

namespace TreeFold.Text

theorem toNat_ofNat_of_lt {n : Nat} (h : n < 256) : (UInt8.ofNat n).toNat = n := by
  simp only [UInt8.toNat_ofNat', Nat.reducePow]
  omega

/-- Reading a byte that starts a character. -/
theorem next_start {units : List (Option Char)} {n : Nat} (h : n < 256) :
    Reading.next ⟨units, none⟩ (.ofNat n) = Reading.start units n := by
  rw [Reading.next, toNat_ofNat_of_lt h]

/-- Reading the last byte that a character owes. -/
theorem next_last {units : List (Option Char)} {value low high n : Nat} (h : n < 256)
    (hlow : low ≤ n) (hhigh : n ≤ high) :
    Reading.next ⟨units, some ⟨value, 1, low, high⟩⟩ (.ofNat n) =
      ⟨some (.ofNat (value * 0x40 + (n - 0x80))) :: units, none⟩ := by
  simp [Reading.next, toNat_ofNat_of_lt h, hlow, hhigh]

/-- Reading a byte of a character that owes more. -/
theorem next_more {units : List (Option Char)} {value low high n : Nat} (owed : Nat)
    (h : n < 256) (hlow : low ≤ n) (hhigh : n ≤ high) :
    Reading.next ⟨units, some ⟨value, owed + 2, low, high⟩⟩ (.ofNat n) =
      ⟨units, some ⟨value * 0x40 + (n - 0x80), owed + 1, 0x80, 0xbf⟩⟩ := by
  simp [Reading.next, toNat_ofNat_of_lt h, hlow, hhigh]

/-- The first byte of a character of two bytes. -/
theorem readFirst_two {n : Nat} (hlow : 0x80 ≤ n) (hhigh : n < 0x800) :
    readFirst (0xc0 + n / 0x40) = .first ⟨n / 0x40, 1, 0x80, 0xbf⟩ := by
  have hvalue : 0xc0 + n / 0x40 - 0xc0 = n / 0x40 := by omega
  rw [readFirst, if_neg (by omega), if_neg (by omega), if_pos (by omega), hvalue]

/-- The first byte of a character of three bytes bounds the second so that no surrogate and no
shorter form is read. -/
theorem readFirst_three {n : Nat} (hlow : 0x800 ≤ n) (hhigh : n < 0x10000)
    (hvalid : n < 0xd800 ∨ 0xdfff < n) :
    ∃ low high, readFirst (0xe0 + n / 0x1000) = .first ⟨n / 0x1000, 2, low, high⟩ ∧
      low ≤ 0x80 + n / 0x40 % 0x40 ∧ 0x80 + n / 0x40 % 0x40 ≤ high := by
  rw [readFirst, if_neg (by omega), if_neg (by omega), if_neg (by omega)]
  by_cases h0 : 0xe0 + n / 0x1000 = 0xe0
  · refine ⟨0xa0, 0xbf, ?_, by omega, by omega⟩
    have hvalue : n / 0x1000 = 0 := by omega
    rw [if_pos h0, hvalue]
  · rw [if_neg h0]
    by_cases hd : 0xe0 + n / 0x1000 = 0xed
    · refine ⟨0x80, 0x9f, ?_, by omega, by omega⟩
      have hvalue : n / 0x1000 = 0xd := by omega
      rw [if_pos hd, hvalue]
    · refine ⟨0x80, 0xbf, ?_, by omega, by omega⟩
      have hvalue : 0xe0 + n / 0x1000 - 0xe0 = n / 0x1000 := by omega
      rw [if_neg hd, if_pos (by omega), hvalue]

/-- The first byte of a character of four bytes bounds the second so that no shorter form and
nothing beyond the last code point is read. -/
theorem readFirst_four {n : Nat} (hlow : 0x10000 ≤ n) (hhigh : n < 0x110000) :
    ∃ low high, readFirst (0xf0 + n / 0x40000) = .first ⟨n / 0x40000, 3, low, high⟩ ∧
      low ≤ 0x80 + n / 0x1000 % 0x40 ∧ 0x80 + n / 0x1000 % 0x40 ≤ high := by
  rw [readFirst, if_neg (by omega), if_neg (by omega), if_neg (by omega), if_neg (by omega),
    if_neg (by omega), if_neg (by omega)]
  by_cases h0 : 0xf0 + n / 0x40000 = 0xf0
  · refine ⟨0x90, 0xbf, ?_, by omega, by omega⟩
    have hvalue : n / 0x40000 = 0 := by omega
    rw [if_pos h0, hvalue]
  · rw [if_neg h0]
    by_cases h4 : 0xf0 + n / 0x40000 < 0xf4
    · refine ⟨0x80, 0xbf, ?_, by omega, by omega⟩
      have hvalue : 0xf0 + n / 0x40000 - 0xf0 = n / 0x40000 := by omega
      rw [if_pos h4, hvalue]
    · refine ⟨0x80, 0x8f, ?_, by omega, by omega⟩
      have hvalue : n / 0x40000 = 4 := by omega
      rw [if_neg h4, if_pos (by omega), hvalue]

/-- The code points that are characters. -/
theorem toNat_valid (c : Char) : c.toNat < 0xd800 ∨ 0xdfff < c.toNat ∧ c.toNat < 0x110000 :=
  c.valid

/-- The bytes of a character are read as that character. -/
theorem foldl_next_encodeChar (units : List (Option Char)) (c : Char) :
    (encodeChar c).foldl Reading.next ⟨units, none⟩ = ⟨some c :: units, none⟩ := by
  have hvalid := toNat_valid c
  have hback : ∀ n, n = c.toNat → Char.ofNat n = c := by
    rintro n rfl
    exact Char.ofNat_toNat c
  rw [encodeChar]
  by_cases h1 : c.toNat < 0x80
  · simp only [h1, if_true, List.foldl_cons, List.foldl_nil]
    rw [next_start (by omega), Reading.start, readFirst, if_pos h1, hback _ rfl]
  simp only [h1, if_false]
  by_cases h2 : c.toNat < 0x800
  · simp only [h2, if_true, List.foldl_cons, List.foldl_nil]
    rw [next_start (by omega), Reading.start, readFirst_two (by omega) h2]
    dsimp only
    rw [next_last (by omega) (by omega) (by omega), hback _ (by omega)]
  simp only [h2, if_false]
  by_cases h3 : c.toNat < 0x10000
  · obtain ⟨low, high, hfirst, hlow, hhigh⟩ := readFirst_three (by omega) h3 (by omega)
    simp only [h3, if_true, List.foldl_cons, List.foldl_nil]
    rw [next_start (by omega), Reading.start, hfirst]
    dsimp only
    rw [next_more 0 (by omega) hlow hhigh,
      next_last (by omega) (by omega) (by omega), hback _ (by omega)]
  simp only [h3, if_false]
  obtain ⟨low, high, hfirst, hlow, hhigh⟩ :=
    readFirst_four (n := c.toNat) (by omega) (by omega)
  simp only [List.foldl_cons, List.foldl_nil]
  rw [next_start (by omega), Reading.start, hfirst]
  dsimp only
  rw [next_more 1 (by omega) hlow hhigh,
    next_more 0 (by omega) (by omega) (by omega),
    next_last (by omega) (by omega) (by omega), hback _ (by omega)]

theorem foldl_next_encodeUtf8 (units : List (Option Char)) (text : Text) :
    (encodeUtf8 text).foldl Reading.next ⟨units, none⟩ =
      ⟨(text.map some).reverse ++ units, none⟩ := by
  induction text generalizing units with
  | nil => rfl
  | cons c text ih =>
      rw [encodeUtf8, List.flatMap_cons, List.foldl_append, foldl_next_encodeChar]
      rw [encodeUtf8] at ih
      rw [ih]
      simp

/-- A written text is read back unchanged. -/
@[simp]
theorem decodeLossy_encodeUtf8 (text : Text) : decodeLossy (encodeUtf8 text) = text := by
  rw [decodeLossy, decodeUnits, foldl_next_encodeUtf8, Reading.finish]
  have hback : ((·.getD replacement) ∘ some : Char → Char) = id := rfl
  simp [hback]

theorem encodeUtf8_inj {a b : Text} : encodeUtf8 a = encodeUtf8 b ↔ a = b := by
  constructor
  · intro h
    rw [← decodeLossy_encodeUtf8 a, h, decodeLossy_encodeUtf8]
  · rintro rfl
    rfl

/-- What was read before stays behind what is read next. -/
theorem foldl_next_append (units more : List (Option Char)) (part? : Option PartialChar)
    (bytes : List UInt8) :
    bytes.foldl Reading.next ⟨more ++ units, part?⟩ =
      ⟨(bytes.foldl Reading.next ⟨more, part?⟩).units ++ units,
        (bytes.foldl Reading.next ⟨more, part?⟩).part?⟩ := by
  have hstart : ∀ more byte, Reading.start (more ++ units) byte =
      ⟨(Reading.start more byte).units ++ units, (Reading.start more byte).part?⟩ := by
    intro more byte
    rw [Reading.start, Reading.start]
    cases readFirst byte <;> rfl
  have hnext : ∀ more part? byte, Reading.next ⟨more ++ units, part?⟩ byte =
      ⟨(Reading.next ⟨more, part?⟩ byte).units ++ units,
        (Reading.next ⟨more, part?⟩ byte).part?⟩ := by
    intro more part? byte
    cases part? with
    | none => exact hstart more byte.toNat
    | some part =>
        simp only [Reading.next]
        split
        · split <;> rfl
        · exact hstart (none :: more) byte.toNat
  induction bytes generalizing more part? with
  | nil => rfl
  | cons byte bytes ih =>
      rw [List.foldl_cons, List.foldl_cons, hnext]
      exact ih _ _

/-- Behind whole units, bytes are read as at the start. -/
theorem finish_foldl_next (units : List (Option Char)) (back : List UInt8) :
    (back.foldl Reading.next ⟨units, none⟩).finish = units.reverse ++ decodeUnits back := by
  have hback := foldl_next_append units [] none back
  rw [List.nil_append] at hback
  rw [hback, decodeUnits]
  rcases back.foldl Reading.next ⟨[], none⟩ with ⟨more, _ | part⟩ <;> simp [Reading.finish]

/-- Bytes whose text does not end in a malformed unit end with a whole character, so that what comes
after them is read on its own. -/
theorem decodeLossy_append {front : List UInt8}
    (h : (decodeLossy front).getLast? ≠ some replacement) (back : List UInt8) :
    decodeLossy (front ++ back) = decodeLossy front ++ decodeLossy back := by
  simp only [decodeLossy, decodeUnits, List.foldl_append] at h ⊢
  rcases hread : front.foldl Reading.next ⟨[], none⟩ with ⟨units, _ | part⟩
  · rw [finish_foldl_next, List.map_append, decodeUnits]
    rfl
  · -- The character left open would be the malformed unit.
    rw [hread] at h
    simp [Reading.finish] at h

section Length

theorem foldl_utf8Size (total : Nat) (text : Text) :
    text.foldl (fun total c => total + c.utf8Size) total = total + byteLength text := by
  induction text generalizing total with
  | nil => rfl
  | cons c text ih =>
      rw [byteLength, List.foldl_cons, List.foldl_cons, ih, ih, Nat.zero_add, Nat.add_assoc]

@[simp]
theorem byteLength_nil : byteLength [] = 0 := rfl

theorem byteLength_cons (c : Char) (text : Text) :
    byteLength (c :: text) = c.utf8Size + byteLength text := by
  rw [byteLength, List.foldl_cons, foldl_utf8Size, Nat.zero_add]

theorem byteLength_append (a b : Text) : byteLength (a ++ b) = byteLength a + byteLength b := by
  rw [byteLength, List.foldl_append, foldl_utf8Size]
  rfl

theorem encodeUtf8_cons (c : Char) (text : Text) :
    encodeUtf8 (c :: text) = encodeChar c ++ encodeUtf8 text := rfl

theorem encodeUtf8_append (a b : Text) : encodeUtf8 (a ++ b) = encodeUtf8 a ++ encodeUtf8 b :=
  List.flatMap_append

theorem length_encodeChar (c : Char) : (encodeChar c).length = c.utf8Size := by
  have hval : c.val.toNat = c.toNat := rfl
  simp only [encodeChar, Char.utf8Size, UInt32.le_iff_toNat_le, UInt32.toNat_ofNatLT, hval]
  split_ifs <;> simp <;> omega

/-- The byte length is the number of bytes. -/
theorem length_encodeUtf8 (text : Text) : (encodeUtf8 text).length = byteLength text := by
  induction text with
  | nil => rfl
  | cons c text ih =>
      rw [encodeUtf8_cons, List.length_append, length_encodeChar, ih, byteLength_cons]

end Length

end TreeFold.Text
