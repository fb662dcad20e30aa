import TreeFold.Number.Binary64
import TreeFold.Text.Basic

/-!
# Numbers as text

Reading integers of sixty-four bits and floating point numbers from decimal text. The whole text
has to be a number.
-/

namespace TreeFold.Number

/-- The value of digits in a base, when each is one. -/
def ofDigits? (base : Nat) (digits : Text) : Option Nat :=
  digits.foldl (fun value? c => do
    let value ← value?
    let digit ← digitOf? c
    if digit < base then some (value * base + digit) else none) (some 0)
where
  /-- The value of a digit or letter. -/
  digitOf? (c : Char) : Option Nat :=
    if c.isDigit then some (c.toNat - '0'.toNat)
    else if 'a' ≤ c && c ≤ 'z' then some (c.toNat - 'a'.toNat + 10)
    else if 'A' ≤ c && c ≤ 'Z' then some (c.toNat - 'A'.toNat + 10)
    else none

/-- A text without its sign, and whether the sign is a minus. -/
def splitSign : Text → Bool × Text
  | '-' :: rest => (true, rest)
  | '+' :: rest => (false, rest)
  | text => (false, text)

/-- Whether an integer has sixty-four bits. -/
def inRange (n : Int) : Bool :=
  -(Nat.pow 2 63) ≤ n && n < Nat.pow 2 63

/-- An integer of sixty-four bits in a base, behind a sign. -/
def ofSigned? (base : Nat) (text : Text) : Option Int := do
  let (negative, digits) := splitSign text
  if digits = [] then none
  let magnitude ← ofDigits? base digits
  let value : Int := if negative then -magnitude else magnitude
  if inRange value then some value else none

/-- A decimal integer of sixty-four bits, with an optional sign. -/
def parseInteger? (text : Text) : Option Int :=
  ofSigned? 10 text

/-- A decimal natural number of sixty-four bits, with an optional plus. -/
def parseUnsigned? (text : Text) : Option Nat := do
  let digits := match text with
    | '+' :: rest => rest
    | _ => text
  if digits = [] then none
  let value ← ofDigits? 10 digits
  if value < Nat.pow 2 64 then some value else none

/-- Whether two texts are the same but for the case of ASCII letters. -/
def sameLetters (text : Text) (word : String) : Bool :=
  text.map Char.toLower = word.toList

/-- The exponent behind the mantissa of a decimal. -/
def exponentOf? : Text → Option Int
  | [] => some 0
  | c :: rest =>
    if c = 'e' || c = 'E' then do
      let (negative, digits) := splitSign rest
      if digits = [] then none
      let magnitude ← ofDigits? 10 digits
      return if negative then -magnitude else magnitude
    else none

/-- A decimal with optional fraction and exponent; a digit has to stand before or behind the
point. -/
def parseDecimal? (negative : Bool) (text : Text) : Option Binary64 := do
  let whole := text.takeWhile Char.isDigit
  let (fraction, rest) := match text.dropWhile Char.isDigit with
    | '.' :: rest => (rest.takeWhile Char.isDigit, rest.dropWhile Char.isDigit)
    | rest => ([], rest)
  if whole = [] && fraction = [] then none
  let exponent ← exponentOf? rest
  let digits ← ofDigits? 10 (whole ++ fraction)
  return .ofDecimal negative digits (exponent - fraction.length)

/-- A floating point number: a decimal, an infinity or what is no number, with an optional
sign. -/
def parseFloat? (text : Text) : Option Binary64 :=
  let (negative, rest) := splitSign text
  if sameLetters rest "inf" || sameLetters rest "infinity" then some (.infinite negative)
  else if sameLetters rest "nan" then some .nan
  else parseDecimal? negative rest

/-- The text of an integer. -/
def integerText (n : Int) : Text :=
  (toString n).toList

end TreeFold.Number
