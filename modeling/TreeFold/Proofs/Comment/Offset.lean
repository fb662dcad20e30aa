import Mathlib.Data.List.Basic
import TreeFold.Proofs.Comment.Quotes

/-!
# The offset of a line comment

The offset of a comment counts bytes. It can be found without reading characters at all: the bytes
of a character beyond ASCII are neither quotes nor slashes, so a scan that looks at one byte at a
time passes over them, and it stops where the scan over the characters does.
-/

namespace TreeFold.Comment

open Text

/-- The byte of an ASCII character. -/
def byteOf (c : Char) : UInt8 :=
  .ofNat c.toNat

/-- The bytes of the quotes. -/
def isQuoteByte (byte : UInt8) : Bool :=
  byte = byteOf '"' || byte = byteOf '\''

/-- The open quote after the byte of a quote. -/
def observeByte (quote : Option UInt8) (byte : UInt8) : Option UInt8 :=
  match quote with
  | none => some byte
  | some q => if q = byte then none else some q

/-- Scan the bytes of a line for a comment, `passed` bytes having been passed. -/
def scanBytes (passed : Nat) (quote : Option UInt8) : List UInt8 → Option Nat
  | [] => none
  | byte :: rest =>
    if isQuoteByte byte then scanBytes (passed + 1) (observeByte quote byte) rest
    else if quote.isNone && byte = byteOf '/' && rest.head? = some (byteOf '/') then some passed
    else scanBytes (passed + 1) quote rest

section Ascii

variable {c d : Char}

theorem toNat_byteOf (h : c.toNat < 0x80) : (byteOf c).toNat = c.toNat :=
  toNat_ofNat_of_lt (Nat.lt_trans h (by decide))

theorem byteOf_inj (hc : c.toNat < 0x80) (hd : d.toNat < 0x80) : byteOf c = byteOf d ↔ c = d := by
  constructor
  · intro h
    have htoNat : c.toNat = d.toNat := by
      rw [← toNat_byteOf hc, ← toNat_byteOf hd, h]
    rw [← Char.ofNat_toNat c, htoNat, Char.ofNat_toNat]
  · rintro rfl
    rfl

theorem isQuoteByte_byteOf (hc : c.toNat < 0x80) : isQuoteByte (byteOf c) = isQuote c := by
  rw [Bool.eq_iff_iff]
  simp only [isQuoteByte, isQuote, Bool.or_eq_true, decide_eq_true_eq]
  rw [byteOf_inj hc (by decide), byteOf_inj hc (by decide)]

/-- A quote is an ASCII character. -/
theorem toNat_of_isQuote (h : isQuote c = true) : c.toNat < 0x80 := by
  simp only [isQuote, Bool.or_eq_true, decide_eq_true_eq] at h
  rcases h with rfl | rfl <;> decide

theorem observeByte_byteOf {quote : Option Char} (hquote : ∀ q ∈ quote, isQuote q = true)
    (hc : c.toNat < 0x80) :
    observeByte (quote.map byteOf) (byteOf c) = (observeQuote quote c).map byteOf := by
  cases quote with
  | none => rfl
  | some q =>
      have hq := toNat_of_isQuote (hquote q rfl)
      simp only [Option.map_some, observeByte, observeQuote, byteOf_inj hq hc]
      split <;> rfl

theorem isQuote_observeQuote {quote : Option Char} (hquote : ∀ q ∈ quote, isQuote q = true)
    (hc : isQuote c = true) : ∀ q ∈ observeQuote quote c, isQuote q = true := by
  cases quote with
  | none => simpa [observeQuote] using hc
  | some q =>
      rw [observeQuote]
      split
      · simp
      · exact hquote

theorem encodeChar_ascii (hc : c.toNat < 0x80) : encodeChar c = [byteOf c] := by
  rw [encodeChar, if_pos hc]
  rfl

/-- The bytes of a longer character are not those of ASCII characters. -/
theorem le_of_mem_encodeChar (hc : 0x80 ≤ c.toNat) {byte : UInt8} (h : byte ∈ encodeChar c) :
    0x80 ≤ byte.toNat := by
  have hvalid := toNat_valid c
  rw [encodeChar, if_neg (Nat.not_lt.mpr hc)] at h
  split_ifs at h <;> simp only [List.mem_cons, List.not_mem_nil, or_false] at h
  · rcases h with rfl | rfl <;> rw [toNat_ofNat_of_lt] <;> omega
  · rcases h with rfl | rfl | rfl <;> rw [toNat_ofNat_of_lt] <;> omega
  · rcases h with rfl | rfl | rfl | rfl <;> rw [toNat_ofNat_of_lt] <;> omega

theorem ne_byteOf (hd : d.toNat < 0x80) {byte : UInt8} (h : 0x80 ≤ byte.toNat) :
    byte ≠ byteOf d := by
  rintro rfl
  rw [toNat_byteOf hd] at h
  omega

/-- The first byte of a text is that of an ASCII character when the first character is. -/
theorem head?_encodeUtf8 (hd : d.toNat < 0x80) (text : Text) :
    (encodeUtf8 text).head? = some (byteOf d) ↔ text.head? = some d := by
  cases text with
  | nil => exact iff_of_false nofun nofun
  | cons c text =>
      rw [encodeUtf8_cons, List.head?_cons, Option.some.injEq]
      by_cases hc : c.toNat < 0x80
      · rw [encodeChar_ascii hc, List.singleton_append, List.head?_cons, Option.some.injEq]
        exact byteOf_inj hc hd
      · apply iff_of_false
        · intro hhead
          have hne : encodeChar c ≠ [] := by
            rw [← List.length_pos_iff, length_encodeChar]
            exact Char.utf8Size_pos c
          rw [List.head?_append_of_ne_nil _ hne] at hhead
          have hmem := List.mem_of_mem_head? hhead
          exact ne_byteOf hd (le_of_mem_encodeChar (Nat.le_of_not_lt hc) hmem) rfl
        · rintro rfl
          exact hc hd

end Ascii

/-- Bytes beyond ASCII are passed over. -/
theorem scanBytes_append {bytes : List UInt8} (h : ∀ byte ∈ bytes, 0x80 ≤ byte.toNat)
    (passed : Nat) (quote : Option UInt8) (rest : List UInt8) :
    scanBytes passed quote (bytes ++ rest) = scanBytes (passed + bytes.length) quote rest := by
  induction bytes generalizing passed with
  | nil => rfl
  | cons byte bytes ih =>
      obtain ⟨hbyte, hbytes⟩ := List.forall_mem_cons.mp h
      have hne : ∀ d : Char, d.toNat < 0x80 → byte ≠ byteOf d := fun d hd => ne_byteOf hd hbyte
      have hquote : isQuoteByte byte = false := by
        simp [isQuoteByte, hne '"' (by decide), hne '\'' (by decide)]
      have hslash : byte ≠ byteOf '/' := hne '/' (by decide)
      rw [List.cons_append, scanBytes, if_neg (by simp [hquote]), if_neg (by simp [hslash]),
        ih hbytes, List.length_cons, Nat.add_assoc, Nat.add_comm 1]

/-- Behind what was passed, the scan over the bytes finds the place that the scan over the
characters finds. -/
theorem scanBytes_encodeUtf8 (front line : Text) {quote : Option Char}
    (hquote : ∀ q ∈ quote, isQuote q = true) :
    scanBytes (byteLength front) (quote.map byteOf) (encodeUtf8 line) =
      (scanLine front.length quote line).map fun i => byteLength ((front ++ line).take i) := by
  induction line generalizing front quote with
  | nil => rfl
  | cons c line ih =>
      have hpassed : byteLength (front ++ [c]) = byteLength front + c.utf8Size := by
        rw [byteLength_append, byteLength_cons, byteLength_nil, Nat.add_zero]
      have hnext : ∀ {next : Option Char}, (∀ q ∈ next, isQuote q = true) →
          scanBytes (byteLength front + c.utf8Size) (next.map byteOf) (encodeUtf8 line) =
            (scanLine (front.length + 1) next line).map fun i =>
              byteLength ((front ++ c :: line).take i) := by
        intro next hnext
        have hrest := ih (front ++ [c]) hnext
        rwa [hpassed, List.length_append, List.length_singleton, ← List.append_cons] at hrest
      rw [encodeUtf8_cons]
      by_cases hc : c.toNat < 0x80
      · have hsize : c.utf8Size = 1 := by
          rw [← length_encodeChar, encodeChar_ascii hc, List.length_singleton]
        rw [hsize] at hnext
        rw [encodeChar_ascii hc, List.singleton_append, scanBytes, scanLine, isQuoteByte_byteOf hc]
        cases hisQuote : isQuote c with
        | true =>
            rw [if_pos rfl, if_pos rfl, observeByte_byteOf hquote hc]
            exact hnext (isQuote_observeQuote hquote hisQuote)
        | false =>
            have hslash : byteOf c = byteOf '/' ↔ c = '/' := byteOf_inj hc (by decide)
            have htoken : (encodeUtf8 line).head? = some (byteOf '/') ↔ line.head? = some '/' :=
              head?_encodeUtf8 (by decide) line
            simp only [Bool.false_eq_true, if_false, Option.isNone_map, hslash, htoken]
            split
            · simp
            · exact hnext hquote
      · -- No byte of a longer character is looked at.
        have hhigh := Nat.le_of_not_lt hc
        have hplain : isQuote c = false := by
          by_contra h
          exact hc (toNat_of_isQuote (by simpa using h))
        have hslash : c ≠ '/' := by
          rintro rfl
          exact hc (by decide)
        rw [scanBytes_append (fun byte => le_of_mem_encodeChar hhigh), length_encodeChar, scanLine,
          if_neg (by simp [hplain]), if_neg (by simp [hslash])]
        exact hnext hquote

/-- The offset of a comment is found by the scan over the bytes. -/
theorem scanBytes_eq (line : Text) : scanBytes 0 none (encodeUtf8 line) = commentOffset? line :=
  @scanBytes_encodeUtf8 [] line none nofun

/-- A comment is reported at the number of bytes before the first token outside quotes, always the
start of a character, and none is reported exactly when every token is inside quotes, as is all that
stands behind a quote that is never closed. The scan over the bytes of the line reports the same. -/
theorem commentOffset?_eq_iff (line : Text) :
    (∀ i, commentOffset? line = some i ↔
        ∃ front, FirstComment line front ∧ (encodeUtf8 front).length = i) ∧
      (commentOffset? line = none ↔ ∀ front, ¬CommentBehind line front) ∧
      (∀ front quote body, QuotesClosed front → isQuote quote = true → quote ∉ body →
        ¬QuotesClosed (front ++ quote :: body)) ∧
      scanBytes 0 none (encodeUtf8 line) = commentOffset? line := by
  refine ⟨?_, ?_, fun front quote body => not_quotesClosed_of_open, scanBytes_eq line⟩
  · intro i
    rw [commentOffset?, Option.map_eq_some_iff]
    constructor
    · rintro ⟨n, hn, rfl⟩
      obtain ⟨front, hfirst, rfl⟩ := commentIndex?_eq_some_iff.mp hn
      exact ⟨front, hfirst, by rw [length_encodeUtf8, take_of_firstComment hfirst]⟩
    · rintro ⟨front, hfirst, rfl⟩
      refine ⟨front.length, commentIndex?_eq_some_iff.mpr ⟨front, hfirst, rfl⟩, ?_⟩
      rw [length_encodeUtf8, take_of_firstComment hfirst]
  · rw [commentOffset?, Option.map_eq_none_iff]
    exact commentIndex?_eq_none_iff

/-- A token inside quotes behind a letter of two bytes, and one outside. -/
def accentedLine : Text :=
  ['\u00e9', '"', '\'', '/', '/', '"', '/', '/', '!']

/-- The comment begins behind seven bytes, and no place behind the quote left open is outside. -/
theorem accentedLine_commentOffset? :
    (∃ front, FirstComment accentedLine front ∧ (encodeUtf8 front).length = 7) ∧
      scanBytes 0 none (encodeUtf8 accentedLine) = some 7 ∧
      QuotesClosed ['\u00e9'] ∧ '"' ∉ ['\'', '/', '/'] ∧
      ¬QuotesClosed (['\u00e9'] ++ '"' :: ['\'', '/', '/']) := by
  obtain ⟨hsome, -, hopen, hbytes⟩ := commentOffset?_eq_iff accentedLine
  have hoffset : commentOffset? accentedLine = some 7 := by decide
  have hclosed : QuotesClosed ['\u00e9'] := .plain rfl .nil
  have hinside : '"' ∉ ['\'', '/', '/'] := by decide
  exact ⟨(hsome 7).mp hoffset, hbytes.trans hoffset, hclosed, hinside,
    hopen _ _ _ hclosed rfl hinside⟩

end TreeFold.Comment
