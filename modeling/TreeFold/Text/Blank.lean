import TreeFold.Text.Basic

/-!
# Blank characters

The characters with the Unicode property White_Space. The line breaks U+001C to U+001E are not
among them, although they end a line.
-/

namespace TreeFold.Text

/-- The Unicode property White_Space. -/
def isBlank (c : Char) : Bool :=
  match c with
  | '\t' | '\n' | '\x0b' | '\x0c' | '\r' | ' ' | '\u0085' | '\u00a0' | '\u1680' => true
  | '\u2028' | '\u2029' | '\u202f' | '\u205f' | '\u3000' => true
  | _ => '\u2000' ≤ c && c ≤ '\u200a'

/-- The text without blank characters at its end. -/
def trimEnd (text : Text) : Text :=
  trimEndWhile isBlank text

/-- The text without blank characters at either end. -/
def trim (text : Text) : Text :=
  trimWhile isBlank text

/-- Whether the text holds blank characters only. -/
def isBlankText (text : Text) : Bool :=
  text.all isBlank

end TreeFold.Text
