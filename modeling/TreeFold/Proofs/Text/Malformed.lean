import Mathlib.Data.List.Induction
import TreeFold.Proofs.Text.Utf8

/-!
# Bytes that are not UTF-8

Strict reading accepts just the bytes that a text is written with. Lossy reading takes any bytes,
and a byte that starts a character ends what was malformed before it, so bytes can be read in parts
that are cut in front of such a byte.
-/

namespace TreeFold.Text

variable {bytes front back : List UInt8} {text : Text} {reading : Reading}

/-- The bytes are those of a text. -/
def IsUtf8 (bytes : List UInt8) : Prop :=
  ∃ text, bytes = encodeUtf8 text

/-- Bytes of texts are told apart by what they read as. -/
theorem IsUtf8.decodeLossy_inj {other : List UInt8} (h : IsUtf8 bytes) (hother : IsUtf8 other) :
    decodeLossy bytes = decodeLossy other ↔ bytes = other := by
  obtain ⟨text, rfl⟩ := h
  obtain ⟨more, rfl⟩ := hother
  rw [decodeLossy_encodeUtf8, decodeLossy_encodeUtf8, encodeUtf8_inj]

section First

variable {byte : Nat} {part : PartialChar} {c : Char}

theorem readFirst_whole (h : readFirst byte = .whole c) : byte < 0x80 ∧ c = .ofNat byte := by
  simp only [readFirst, ite_eq_iff, reduceCtorEq, and_false, or_false, FirstByte.whole.injEq] at h
  exact ⟨h.1, h.2.symm⟩

/-- The byte opens a character of two, three or four bytes. The range of the second byte leaves out
shorter forms, surrogates and what is beyond the last code point. -/
inductive Opens (byte : Nat) : PartialChar → Prop
  | two (hlow : 0xc2 ≤ byte) (hhigh : byte < 0xe0) : Opens byte ⟨byte - 0xc0, 1, 0x80, 0xbf⟩
  | three {low high : Nat} (hlow : 0xe0 ≤ byte) (hhigh : byte < 0xf0)
      (hrange : 0x80 ≤ low ∧ high ≤ 0xbf) (hshort : byte = 0xe0 → 0xa0 ≤ low)
      (hsurrogate : byte = 0xed → high ≤ 0x9f) : Opens byte ⟨byte - 0xe0, 2, low, high⟩
  | four {low high : Nat} (hlow : 0xf0 ≤ byte) (hhigh : byte < 0xf5)
      (hrange : 0x80 ≤ low ∧ high ≤ 0xbf) (hshort : byte = 0xf0 → 0x90 ≤ low)
      (hbeyond : byte = 0xf4 → high ≤ 0x8f) : Opens byte ⟨byte - 0xf0, 3, low, high⟩

theorem opens_of_readFirst (h : readFirst byte = .first part) : Opens byte part := by
  simp only [readFirst, ite_eq_iff, reduceCtorEq, and_false, false_or, or_false,
    FirstByte.first.injEq] at h
  obtain ⟨-, hlow, ⟨hhigh, rfl⟩ | ⟨hthree, h⟩⟩ := h
  · exact .two (by omega) hhigh
  obtain ⟨rfl, rfl⟩ | ⟨hshort, ⟨rfl, rfl⟩ | ⟨hsurrogate, ⟨hhigh, rfl⟩ | ⟨hfour, h⟩⟩⟩ := h
  · exact .three (by decide) (by decide) (by decide) (by decide) (by decide)
  · exact .three (by decide) (by decide) (by decide) (by decide) (by decide)
  · exact .three (by omega) hhigh (by decide) (by omega) (by omega)
  obtain ⟨rfl, rfl⟩ | ⟨hshort, ⟨hhigh, rfl⟩ | ⟨-, rfl, rfl⟩⟩ := h
  · exact .four (by decide) (by decide) (by decide) (by decide) (by decide)
  · exact .four (by omega) (by omega) (by decide) (by omega) (by omega)
  · exact .four (by decide) (by decide) (by decide) (by decide) (by decide)

end First

section Strict

/-- With as many bytes as are owed, each in its range, the bytes are those of the character of the
value that comes out. -/
def Begins (bytes : List UInt8) (value : Nat) : (owed : Nat) → (low high : Nat) → Prop
  | 0, _, _ => encodeChar (.ofNat value) = bytes
  | owed + 1, low, high => ∀ byte : UInt8, low ≤ byte.toNat → byte.toNat ≤ high →
    Begins (bytes ++ [byte]) (value * 0x40 + (byte.toNat - 0x80)) owed 0x80 0xbf

theorem ofNat_eq_of_toNat (byte : UInt8) {n : Nat} (h : n = byte.toNat) :
    UInt8.ofNat n = byte := by
  rw [h, UInt8.ofNat_toNat]

theorem toNat_ofNat_of_valid {n : Nat} (h : n < 0xd800 ∨ 0xdfff < n ∧ n < 0x110000) :
    (Char.ofNat n).toNat = n := by
  have hvalid : n.isValidChar := h
  rw [Char.ofNat, dif_pos hvalid]
  rfl

variable {byte : UInt8}

/-- The byte that opens a character is the first of the character that comes out. -/
theorem Opens.begins {part : PartialChar} (h : Opens byte.toNat part) :
    part.owed ≠ 0 ∧ Begins [byte] part.value part.owed part.low part.high := by
  refine ⟨by cases h <;> exact Nat.succ_ne_zero _, ?_⟩
  cases h with
  | two hlow hhigh =>
      dsimp only
      intro second hsecond hsecond'
      rw [Begins, encodeChar, toNat_ofNat_of_valid (by omega), if_neg (by omega),
        if_pos (by omega), ofNat_eq_of_toNat byte (by omega), ofNat_eq_of_toNat second (by omega)]
      rfl
  | three hlow hhigh hrange hshort hsurrogate =>
      dsimp only
      intro second hsecond hsecond' third hthird hthird'
      rw [Begins, encodeChar, toNat_ofNat_of_valid (by omega), if_neg (by omega),
        if_neg (by omega), if_pos (by omega), ofNat_eq_of_toNat byte (by omega),
        ofNat_eq_of_toNat second (by omega), ofNat_eq_of_toNat third (by omega)]
      rfl
  | four hlow hhigh hrange hshort hbeyond =>
      dsimp only
      intro second hsecond hsecond' third hthird hthird' fourth hfourth hfourth'
      rw [Begins, encodeChar, toNat_ofNat_of_valid (by omega), if_neg (by omega),
        if_neg (by omega), if_neg (by omega), ofNat_eq_of_toNat byte (by omega),
        ofNat_eq_of_toNat second (by omega), ofNat_eq_of_toNat third (by omega),
        ofNat_eq_of_toNat fourth (by omega)]
      rfl

/-- The bytes are those of the text read so far, and then those of the open character. -/
def Spells (bytes : List UInt8) (text : Text) : (part? : Option PartialChar) → Prop
  | none => bytes = encodeUtf8 text
  | some part => part.owed ≠ 0 ∧ ∃ opened, bytes = encodeUtf8 text ++ opened ∧
    Begins opened part.value part.owed part.low part.high

theorem encodeUtf8_concat (text : Text) (c : Char) :
    encodeUtf8 (text ++ [c]) = encodeUtf8 text ++ encodeChar c := by
  rw [encodeUtf8_append, encodeUtf8_cons]
  exact congrArg (encodeUtf8 text ++ ·) (List.append_nil _)

/-- As long as no unit is malformed, the bytes read are those of the units. -/
def Reading.Sound (reading : Reading) (bytes : List UInt8) : Prop :=
  ∀ text : Text, reading.units.reverse = text.map some → Spells bytes text reading.part?

/-- A malformed unit is never taken back. -/
theorem Reading.sound_of_malformed {units : List (Option Char)} (h : none ∈ units)
    (part? : Option PartialChar) (bytes : List UInt8) : (Reading.mk units part?).Sound bytes := by
  intro text htext
  have hmem : none ∈ text.map some := htext ▸ List.mem_reverse.mpr h
  simp at hmem

/-- A character behind what was read so far takes up the bytes read for it. -/
theorem Reading.sound_whole {units : List (Option Char)} {c : Char}
    (h : ∀ text : Text, units.reverse = text.map some → bytes = encodeUtf8 text ++ encodeChar c) :
    (Reading.mk (some c :: units) none).Sound bytes := by
  intro text htext
  rw [List.reverse_cons] at htext
  obtain ⟨before, last, rfl, hbefore, hlast⟩ := List.map_eq_append_iff.mp htext.symm
  obtain ⟨other, rest, rfl, hother, hrest⟩ := List.map_eq_cons_iff.mp hlast
  obtain rfl := List.map_eq_nil_iff.mp hrest
  obtain rfl := Option.some.inj hother
  rw [Spells, encodeUtf8_concat]
  exact h before hbefore.symm

theorem Reading.Sound.start {units : List (Option Char)}
    (h : (Reading.mk units none).Sound bytes) (byte : UInt8) :
    (Reading.start units byte.toNat).Sound (bytes ++ [byte]) := by
  rw [Reading.start]
  cases hfirst : readFirst byte.toNat with
  | malformed => exact sound_of_malformed List.mem_cons_self _ _
  | first part =>
      intro text htext
      obtain ⟨howed, hbegins⟩ := (opens_of_readFirst hfirst).begins
      exact ⟨howed, [byte], congrArg (· ++ [byte]) (h text htext), hbegins⟩
  | whole c =>
      obtain ⟨hsmall, rfl⟩ := readFirst_whole hfirst
      have hchar : encodeChar (.ofNat byte.toNat) = [byte] := by
        rw [encodeChar, toNat_ofNat_of_valid (by omega), if_pos hsmall, UInt8.ofNat_toNat]
      apply sound_whole
      intro text htext
      rw [hchar]
      exact congrArg (· ++ [byte]) (h text htext)

theorem Reading.Sound.next (h : reading.Sound bytes) (byte : UInt8) :
    (reading.next byte).Sound (bytes ++ [byte]) := by
  obtain ⟨units, _ | part⟩ := reading
  · exact h.start byte
  · rw [Reading.next]
    dsimp only
    split
    · rename_i hrange
      rw [Bool.and_eq_true, decide_eq_true_eq, decide_eq_true_eq] at hrange
      have hopened : ∀ text : Text, units.reverse = text.map some → ∃ opened,
          bytes ++ [byte] = encodeUtf8 text ++ (opened ++ [byte]) ∧
            Begins (opened ++ [byte]) (part.value * 0x40 + (byte.toNat - 0x80)) (part.owed - 1)
              0x80 0xbf ∧ part.owed ≠ 0 := by
        intro text htext
        obtain ⟨howed, opened, rfl, hbegins⟩ := h text htext
        refine ⟨opened, List.append_assoc _ _ _, ?_, howed⟩
        obtain ⟨owed, howed⟩ := Nat.exists_eq_succ_of_ne_zero howed
        rw [howed] at hbegins ⊢
        exact hbegins byte hrange.1 hrange.2
      split
      · rename_i hlast
        apply sound_whole
        intro text htext
        obtain ⟨opened, hbytes, hbegins, -⟩ := hopened text htext
        rw [hlast] at hbegins
        rw [hbytes, hbegins]
      · rename_i hmore
        intro text htext
        obtain ⟨opened, hbytes, hbegins, howed⟩ := hopened text htext
        refine ⟨?_, _, hbytes, hbegins⟩
        dsimp only
        omega
    · -- The open character is malformed, whatever starts with the byte.
      rw [Reading.start]
      cases readFirst byte.toNat
      · exact sound_of_malformed (by simp) _ _
      · exact sound_of_malformed (by simp) _ _
      · exact sound_of_malformed (by simp) _ _

theorem Reading.sound_foldl (bytes : List UInt8) :
    (bytes.foldl Reading.next ⟨[], none⟩).Sound bytes := by
  induction bytes using List.reverseRecOn with
  | nil =>
      intro text htext
      obtain rfl := List.map_eq_nil_iff.mp htext.symm
      rfl
  | append_singleton bytes byte ih =>
      rw [List.foldl_append]
      exact ih.next byte

/-- Strict reading gives the text that the bytes are those of, and nothing when there is none. -/
theorem decodeUtf8?_eq_some_iff : decodeUtf8? bytes = some text ↔ bytes = encodeUtf8 text := by
  rw [decodeUtf8?]
  constructor
  · intro h
    split at h
    · rename_i hall
      have hunits : decodeUnits bytes = text.map some := by
        rw [← Option.some.inj h, List.map_map]
        refine (List.map_id _).symm.trans (List.map_congr_left fun unit hunit => ?_)
        obtain ⟨c, rfl⟩ := Option.isSome_iff_exists.mp (List.all_eq_true.mp hall unit hunit)
        rfl
      have hsound := Reading.sound_foldl bytes
      rw [decodeUnits, Reading.finish] at hunits
      split at hunits
      · rename_i hpart
        have hspells := hsound text hunits
        rwa [hpart] at hspells
      · have hmem : none ∈ text.map some := hunits ▸ by simp
        simp at hmem
    · cases h
  · rintro rfl
    rw [decodeUnits, foldl_next_encodeUtf8, Reading.finish]
    simp [Function.comp_def]

theorem isSome_decodeUtf8?_iff : (decodeUtf8? bytes).isSome = true ↔ IsUtf8 bytes := by
  rw [Option.isSome_iff_exists]
  exact exists_congr fun text => decodeUtf8?_eq_some_iff

end Strict

section Parts

/-- The byte is no part of a character but its first. -/
def StartsChar (byte : UInt8) : Prop :=
  byte.toNat < 0x80 ∨ 0xbf < byte.toNat

instance (byte : UInt8) : Decidable (StartsChar byte) :=
  inferInstanceAs (Decidable (byte.toNat < 0x80 ∨ 0xbf < byte.toNat))

/-- The bytes of a character begin with one that starts a character. -/
theorem exists_encodeChar_eq (c : Char) : ∃ first rest, encodeChar c = first :: rest ∧
    StartsChar first := by
  have hvalid := toNat_valid c
  rw [encodeChar]
  split_ifs <;> refine ⟨_, _, rfl, ?_⟩ <;> rw [StartsChar, toNat_ofNat_of_lt (by omega)] <;> omega

theorem startsChar_of_mem_head? (hne : text ≠ []) :
    ∀ byte ∈ (encodeUtf8 text ++ back).head?, StartsChar byte := by
  obtain ⟨c, rest, rfl⟩ := List.exists_cons_of_ne_nil hne
  obtain ⟨first, more, hchar, hfirst⟩ := exists_encodeChar_eq c
  rw [encodeUtf8_cons, hchar]
  rintro byte ⟨⟩
  exact hfirst

/-- The bytes that continue the open character are none that start one. -/
def Reading.Bounded (reading : Reading) : Prop :=
  ∀ part, reading.part? = some part → 0x80 ≤ part.low ∧ part.high ≤ 0xbf

theorem Reading.bounded_mk_none (units : List (Option Char)) : (Reading.mk units none).Bounded :=
  fun _ h => by cases h

theorem Reading.bounded_mk_some (units : List (Option Char)) {part : PartialChar}
    (h : 0x80 ≤ part.low ∧ part.high ≤ 0xbf) : (Reading.mk units (some part)).Bounded := by
  intro other hother
  obtain rfl := Option.some.inj hother
  exact h

theorem Reading.bounded_start (units : List (Option Char)) (byte : Nat) :
    (Reading.start units byte).Bounded := by
  rw [Reading.start]
  cases hfirst : readFirst byte with
  | whole c => exact bounded_mk_none _
  | malformed => exact bounded_mk_none _
  | first part =>
      apply bounded_mk_some
      cases opens_of_readFirst hfirst with
      | two _ _ => exact ⟨Nat.le_refl _, Nat.le_refl _⟩
      | three _ _ hrange _ _ => exact hrange
      | four _ _ hrange _ _ => exact hrange

theorem Reading.bounded_next (reading : Reading) (byte : UInt8) : (reading.next byte).Bounded := by
  obtain ⟨units, _ | part⟩ := reading
  · exact bounded_start units byte.toNat
  · rw [Reading.next]
    dsimp only
    split
    · split
      · exact bounded_mk_none _
      · exact bounded_mk_some _ (by simp)
    · exact bounded_start _ _

theorem Reading.bounded_foldl (bytes : List UInt8) :
    (bytes.foldl Reading.next ⟨[], none⟩).Bounded := by
  induction bytes using List.reverseRecOn with
  | nil => exact bounded_mk_none []
  | append_singleton bytes byte _ =>
      rw [List.foldl_append]
      exact bounded_next _ byte

/-- The units with the open character, which is malformed when nothing continues it. -/
def Reading.closed (reading : Reading) : Reading :=
  ⟨reading.finish.reverse, none⟩

theorem Reading.Bounded.next_eq (h : reading.Bounded) {byte : UInt8} (hbyte : StartsChar byte) :
    reading.next byte = reading.closed.next byte := by
  obtain ⟨units, _ | part⟩ := reading
  · rw [closed, finish, List.reverse_reverse]
  · obtain ⟨hlow, hhigh⟩ := h part rfl
    have hout : (decide (part.low ≤ byte.toNat) && decide (byte.toNat ≤ part.high)) = false := by
      rw [Bool.and_eq_false_iff, decide_eq_false_iff_not, decide_eq_false_iff_not]
      rcases hbyte with hbyte | hbyte <;> omega
    rw [closed, finish, List.reverse_reverse, Reading.next, Reading.next]
    simp only [hout, Bool.false_eq_true, if_false]

/-- Bytes are read in parts that are cut in front of the start of a character. -/
theorem decodeLossy_append_of_start (front : List UInt8)
    (h : ∀ byte ∈ back.head?, StartsChar byte) :
    decodeLossy (front ++ back) = decodeLossy front ++ decodeLossy back := by
  have hunits : decodeUnits (front ++ back) = decodeUnits front ++ decodeUnits back := by
    cases back with
    | nil => exact (congrArg decodeUnits (List.append_nil front)).trans (List.append_nil _).symm
    | cons byte back =>
        have hstep := (Reading.bounded_foldl front).next_eq (h byte rfl)
        rw [decodeUnits, List.foldl_append, List.foldl_cons, hstep, Reading.closed,
          ← List.foldl_cons, finish_foldl_next, List.reverse_reverse]
        rfl
  rw [decodeLossy, hunits, List.map_append]
  rfl

/-- Behind a text that was written, reading goes on as at the start. -/
theorem decodeLossy_encodeUtf8_append (text : Text) (back : List UInt8) :
    decodeLossy (encodeUtf8 text ++ back) = text ++ decodeLossy back := by
  rw [decodeLossy, decodeUnits, List.foldl_append, foldl_next_encodeUtf8, List.append_nil,
    finish_foldl_next, List.reverse_reverse, List.map_append, decodeLossy]
  simp [Function.comp_def]

end Parts

end TreeFold.Text
