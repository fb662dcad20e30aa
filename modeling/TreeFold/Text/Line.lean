import TreeFold.Text.Basic

/-!
# Lines

A line ends after a line break, and the two characters of a carriage return with a line feed
form one break. A text that ends in a break has no further empty line.

The decomposition is a fold from the right: a character joins the line that follows it unless a
break stands between the two.
-/

namespace TreeFold.Text

/-- The characters that end a line. -/
def isLineBreak (c : Char) : Bool :=
  match c with
  | '\n' | '\r' | '\x0b' | '\x0c' | '\x1c' | '\x1d' | '\x1e' => true
  | '\u0085' | '\u2028' | '\u2029' => true
  | _ => false

/-- A line ends after `c` unless `c` is a carriage return whose line feed comes next. -/
def endsLine (c : Char) (next : Text) : Bool :=
  isLineBreak c && !(c = '\r' && next.head? = some '\n')

/-- Put a character in front of the lines of the text after it. -/
def consLine (c : Char) : List Text → List Text
  | [] => [[c]]
  | next :: rest => if endsLine c next then [c] :: next :: rest else (c :: next) :: rest

/-- The lines of a text with their breaks; their concatenation is the text. -/
def linesInclusive (text : Text) : List Text :=
  text.foldr consLine []

/-- The text without one line break at its end. -/
def trimLineBreak (line : Text) : Text :=
  match line.reverse with
  | '\n' :: '\r' :: before => before.reverse
  | c :: before => if isLineBreak c then before.reverse else line
  | [] => line

/-- The lines of a text without their breaks. -/
def lines (text : Text) : List Text :=
  (linesInclusive text).map trimLineBreak

@[simp]
theorem linesInclusive_nil : linesInclusive [] = [] := rfl

@[simp]
theorem linesInclusive_cons (c : Char) (text : Text) :
    linesInclusive (c :: text) = consLine c (linesInclusive text) := rfl

theorem flatten_consLine (c : Char) (parts : List Text) :
    (consLine c parts).flatten = c :: parts.flatten := by
  cases parts with
  | nil => rfl
  | cons next rest => by_cases h : endsLine c next <;> simp [consLine, h]

/-- Cutting into lines loses nothing. -/
theorem flatten_linesInclusive (text : Text) : (linesInclusive text).flatten = text := by
  induction text with
  | nil => rfl
  | cons c text ih => rw [linesInclusive_cons, flatten_consLine, ih]

end TreeFold.Text
