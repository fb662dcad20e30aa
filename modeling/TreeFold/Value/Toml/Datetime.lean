import TreeFold.Number.Text

/-!
# Dates and times

A date, a time, or both with an optional offset from universal time. The parts are checked against
the calendar and written in one form: a capital `T` between date and time, and a fraction of at
most nine digits without zeros at its end.
-/

namespace TreeFold.Value.Datetime

/-- The value of two digits at the start of a text, with the rest. -/
def twoDigits? : Text → Option (Nat × Text)
  | a :: b :: rest =>
    if a.isDigit && b.isDigit then (Number.ofDigits? 10 [a, b]).map (·, rest) else none
  | _ => none

/-- A natural number as two digits. -/
def pad2 (n : Nat) : Text := Binary64.digitsText n 2

/-- The number of days of a month. -/
def daysOf (year month : Nat) : Nat :=
  let leap := (year % 4 = 0 && year % 100 ≠ 0) || year % 400 = 0
  if month = 2 then (if leap then 29 else 28)
  else if month = 4 || month = 6 || month = 9 || month = 11 then 30
  else 31

/-- The written form of a date at the start of a text, with the rest. -/
def date? (text : Text) : Option (Text × Text) := do
  let (century, rest) ← twoDigits? text
  let (years, rest) ← twoDigits? rest
  let '-' :: rest := rest | none
  let (month, rest) ← twoDigits? rest
  let '-' :: rest := rest | none
  let (day, rest) ← twoDigits? rest
  let year := century * 100 + years
  if 1 ≤ month && month ≤ 12 && 1 ≤ day && day ≤ daysOf year month then
    some (pad2 century ++ pad2 years ++ '-' :: pad2 month ++ '-' :: pad2 day, rest)
  else none

/-- The written form of a fraction of a second. -/
def fractionText (digits : Text) : Text :=
  match ((digits.take 9).reverse.dropWhile (· = '0')).reverse with
  | [] => []
  | kept => '.' :: kept

/-- The written form of a time at the start of a text, with the rest. The seconds may be left
out. -/
def time? (text : Text) : Option (Text × Text) := do
  let (hour, rest) ← twoDigits? text
  let ':' :: rest := rest | none
  let (minute, rest) ← twoDigits? rest
  if hour > 23 || minute > 59 then none
  let shown := pad2 hour ++ ':' :: pad2 minute
  match rest with
  | ':' :: rest =>
    let (second, rest) ← twoDigits? rest
    if second > 60 then none
    let shown := shown ++ ':' :: pad2 second
    match rest with
    | '.' :: rest =>
      let digits := rest.takeWhile Char.isDigit
      if digits = [] then none
      some (shown ++ fractionText digits, rest.dropWhile Char.isDigit)
    | rest => some (shown, rest)
  | rest => some (shown, rest)

/-- The written form of an offset that is the whole text. -/
def offset? : Text → Option Text
  | [] => some []
  | [c] => if c = 'Z' || c = 'z' then some ['Z'] else none
  | sign :: rest => do
    if sign ≠ '+' && sign ≠ '-' then none
    let (hour, rest) ← twoDigits? rest
    let ':' :: rest := rest | none
    let (minute, rest) ← twoDigits? rest
    if rest = [] && hour ≤ 23 && minute ≤ 59 then
      some (sign :: pad2 hour ++ ':' :: pad2 minute)
    else none

/-- The written form of a date, a time or both. -/
def parse? (text : Text) : Option Text :=
  match date? text with
  | some (date, []) => some date
  | some (date, mark :: rest) => do
    if mark ≠ 'T' && mark ≠ 't' && mark ≠ ' ' then none
    let (time, rest) ← time? rest
    let offset ← offset? rest
    return date ++ 'T' :: time ++ offset
  | none => do
    let (time, rest) ← time? text
    if rest = [] then some time else none

end TreeFold.Value.Datetime
