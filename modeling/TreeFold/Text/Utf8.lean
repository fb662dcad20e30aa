import TreeFold.Text.Basic

/-!
# UTF-8

Texts are written as UTF-8. Reading goes byte by byte and keeps the part of a character read so
far. A byte that cannot continue the part ends it: the part counts as one malformed unit and the
byte is read again as the start of a character. Lossy reading shows a malformed unit as U+FFFD.
-/

namespace TreeFold.Text

/-- The bytes of a character. -/
def encodeChar (c : Char) : List UInt8 :=
  let n := c.toNat
  if n < 0x80 then [.ofNat n]
  else if n < 0x800 then [.ofNat (0xc0 + n / 0x40), .ofNat (0x80 + n % 0x40)]
  else if n < 0x10000 then
    [.ofNat (0xe0 + n / 0x1000), .ofNat (0x80 + n / 0x40 % 0x40), .ofNat (0x80 + n % 0x40)]
  else
    [.ofNat (0xf0 + n / 0x40000), .ofNat (0x80 + n / 0x1000 % 0x40),
      .ofNat (0x80 + n / 0x40 % 0x40), .ofNat (0x80 + n % 0x40)]

/-- The bytes of a text. -/
def encodeUtf8 (text : Text) : List UInt8 :=
  text.flatMap encodeChar

/-- A character read in part: its value so far, how many bytes are owed, and the range of the
next one. -/
structure PartialChar where
  value : Nat
  owed : Nat
  low : Nat
  high : Nat

/-- What one byte says at the start of a character: a whole character, a part of one, or nothing
well formed. -/
inductive FirstByte where
  | whole (c : Char)
  | first (part : PartialChar)
  | malformed

/-- Read the first byte of a character. -/
def readFirst (byte : Nat) : FirstByte :=
  if byte < 0x80 then .whole (.ofNat byte)
  else if byte < 0xc2 then .malformed
  else if byte < 0xe0 then .first ⟨byte - 0xc0, 1, 0x80, 0xbf⟩
  else if byte = 0xe0 then .first ⟨0, 2, 0xa0, 0xbf⟩
  else if byte = 0xed then .first ⟨0xd, 2, 0x80, 0x9f⟩
  else if byte < 0xf0 then .first ⟨byte - 0xe0, 2, 0x80, 0xbf⟩
  else if byte = 0xf0 then .first ⟨0, 3, 0x90, 0xbf⟩
  else if byte < 0xf4 then .first ⟨byte - 0xf0, 3, 0x80, 0xbf⟩
  else if byte = 0xf4 then .first ⟨4, 3, 0x80, 0x8f⟩
  else .malformed

/-- The units read so far, last first, a malformed one as `none`, and the open character. -/
structure Reading where
  units : List (Option Char)
  part? : Option PartialChar

/-- Read a byte where a character starts. -/
def Reading.start (units : List (Option Char)) (byte : Nat) : Reading :=
  match readFirst byte with
  | .whole c => ⟨some c :: units, none⟩
  | .first part => ⟨units, some part⟩
  | .malformed => ⟨none :: units, none⟩

/-- Read one byte. -/
def Reading.next (reading : Reading) (byte : UInt8) : Reading :=
  let b := byte.toNat
  match reading.part? with
  | none => .start reading.units b
  | some part =>
    if part.low ≤ b && b ≤ part.high then
      let value := part.value * 0x40 + (b - 0x80)
      if part.owed = 1 then ⟨some (.ofNat value) :: reading.units, none⟩
      else ⟨reading.units, some ⟨value, part.owed - 1, 0x80, 0xbf⟩⟩
    else .start (none :: reading.units) b

/-- The units read when no byte follows. -/
def Reading.finish (reading : Reading) : List (Option Char) :=
  match reading.part? with
  | none => reading.units.reverse
  | some _ => (none :: reading.units).reverse

/-- The characters of bytes, malformed units as `none`. -/
def decodeUnits (bytes : List UInt8) : List (Option Char) :=
  (bytes.foldl Reading.next ⟨[], none⟩).finish

/-- The character shown for a malformed unit. -/
def replacement : Char := '\ufffd'

/-- The text of bytes, malformed units replaced. -/
def decodeLossy (bytes : List UInt8) : Text :=
  (decodeUnits bytes).map (·.getD replacement)

/-- The text of bytes that are well formed. -/
def decodeUtf8? (bytes : List UInt8) : Option Text :=
  let units := decodeUnits bytes
  if units.all Option.isSome then some (units.map (·.getD replacement)) else none

end TreeFold.Text
