/-!
# Binary floating point numbers

A number of double precision is a mantissa below two to the fifty-third times a power of two. A
decimal is rounded to the nearest such number, a half to the even mantissa. The shortest decimal
of a number is the first, on ever finer decimal grids, that rounds back to it.
-/

namespace TreeFold

/-- A number of double precision. -/
inductive Binary64 where
  | nan
  | infinite (negative : Bool)
  | finite (negative : Bool) (mantissa : Nat) (exponent : Int)
deriving DecidableEq, Repr

namespace Binary64

/-- The power of a base, and one for a negative exponent. -/
def power (base : Nat) (exponent : Int) : Nat :=
  base.pow exponent.toNat

/-- The quotient to the nearest integer, a half to the even one. -/
def roundQuotient (num den : Nat) : Nat :=
  let quotient := num / den
  let twice := 2 * (num % den)
  if twice < den then quotient
  else if twice > den then quotient + 1
  else quotient + quotient % 2

/-- The least exponent of a mantissa. -/
def minExponent : Int := -1074

/-- The greatest exponent of a mantissa. -/
def maxExponent : Int := 971

/-- The quotient of `num` by `den` divided by a power of two, as numerator and denominator. -/
def scale (num den : Nat) (exponent : Int) : Nat × Nat :=
  (num * power 2 (-exponent), den * power 2 exponent)

/-- The exponent that gives the quotient a mantissa of fifty-three bits, or the least one. -/
def exponentOf (num den : Nat) : Int :=
  let guess := max ((num.log2 : Int) - den.log2 - 52) minExponent
  let (n, d) := scale num den guess
  if n < d * Nat.pow 2 52 && minExponent < guess then guess - 1 else guess

/-- The number nearest to a quotient. -/
def ofQuotient (negative : Bool) (num den : Nat) : Binary64 :=
  if num = 0 then finite negative 0 minExponent
  else
    let exponent := exponentOf num den
    let (n, d) := scale num den exponent
    let mantissa := roundQuotient n d
    let (mantissa, exponent) :=
      if mantissa = Nat.pow 2 53 then (Nat.pow 2 52, exponent + 1) else (mantissa, exponent)
    if maxExponent < exponent then infinite negative else finite negative mantissa exponent

/-- The number nearest to `digits` times a power of ten. Powers far outside the range need no
quotient. -/
def ofDecimal (negative : Bool) (digits : Nat) (exponent : Int) : Binary64 :=
  let magnitude := exponent + digits.log2
  if digits = 0 then finite negative 0 minExponent
  else if exponent > 400 then infinite negative
  else if magnitude < -1200 then finite negative 0 minExponent
  else ofQuotient negative (digits * power 10 exponent) (power 10 (-exponent))

/-- Whether the number is not zero. -/
def isNonzero : Binary64 → Bool
  | finite _ mantissa _ => mantissa ≠ 0
  | _ => true

/-- The magnitude to the nearest integer, a half upwards. -/
def roundMagnitude (mantissa : Nat) (exponent : Int) : Nat :=
  if 0 ≤ exponent then mantissa * power 2 exponent
  else (2 * mantissa * power 2 exponent + power 2 (-exponent)) / (2 * power 2 (-exponent))

/-- The greatest unsigned integer of sixty-four bits. -/
def maxUnsigned : Nat := Nat.pow 2 64 - 1

/-- The nearest unsigned integer of sixty-four bits: negative numbers and what is no number give
zero, too great ones the greatest. -/
def toUnsigned : Binary64 → Nat
  | nan => 0
  | infinite negative => if negative then 0 else maxUnsigned
  | finite true _ _ => 0
  | finite false mantissa exponent => min (roundMagnitude mantissa exponent) maxUnsigned

/-- The decimals that round to a number: the ends of their interval and the number itself, four
times enlarged over a common denominator, and whether the ends belong to it. -/
structure Interval where
  low : Nat
  value : Nat
  high : Nat
  den : Nat
  closed : Bool

/-- The interval of a mantissa with its exponent. Below a power of two the numbers are closer. -/
def interval (mantissa : Nat) (exponent : Int) : Interval where
  low := (4 * mantissa - if mantissa = Nat.pow 2 52 && minExponent < exponent then 1 else 2) *
    power 2 exponent
  value := 4 * mantissa * power 2 exponent
  high := (4 * mantissa + 2) * power 2 exponent
  den := 4 * power 2 (-exponent)
  closed := mantissa % 2 = 0

/-- Whether a decimal `digits` times a power of ten rounds to the number of the interval. -/
def Interval.holds (i : Interval) (digits : Nat) (exponent : Int) : Bool :=
  let point := digits * power 10 exponent * i.den
  let unit := power 10 (-exponent)
  if i.closed then i.low * unit ≤ point && point ≤ i.high * unit
  else i.low * unit < point && point < i.high * unit

/-- The point of a decimal grid nearest to the number that rounds to it. -/
def Interval.gridPoint? (i : Interval) (exponent : Int) : Option Nat :=
  let unit := i.den * power 10 exponent
  let scaled := i.value * power 10 (-exponent)
  let below := scaled / unit
  let above := below + 1
  match i.holds below exponent, i.holds above exponent with
  | true, true => some (roundQuotient scaled unit)
  | true, false => some below
  | false, true => some above
  | false, false => none

/-- The exponents of decimal grids from coarse to fine. -/
def gridExponents : List Int :=
  (List.range 640).map fun (i : Nat) => 310 - (i : Int)

/-- The shortest decimal of a mantissa that is not zero, with its exponent. -/
def shortest (mantissa : Nat) (exponent : Int) : Nat × Int :=
  let i := interval mantissa exponent
  (gridExponents.findSome? fun e => (i.gridPoint? e).map fun digits => (digits, e)).getD (0, 0)

/-- The digits of a number, at least `least` of them. -/
def digitsText (n least : Nat) : List Char :=
  let digits := Nat.toDigits 10 n
  List.replicate (least - digits.length) '0' ++ digits

/-- A decimal in positional notation, without a point when it is whole. -/
def positional (digits : Nat) (exponent : Int) : List Char :=
  if 0 ≤ exponent then digitsText (digits * power 10 exponent) 1
  else
    let places := (-exponent).toNat
    let text := digitsText digits (places + 1)
    text.take (text.length - places) ++ '.' :: text.drop (text.length - places)

/-- The text of a number: its shortest decimal in positional notation. -/
def text : Binary64 → List Char
  | nan => ['N', 'a', 'N']
  | infinite negative => (if negative then ['-'] else []) ++ ['i', 'n', 'f']
  | finite negative mantissa exponent =>
    let shown :=
      if mantissa = 0 then ['0']
      else
        let (digits, e) := shortest mantissa exponent
        positional digits e
    (if negative then ['-'] else []) ++ shown

end Binary64

end TreeFold
