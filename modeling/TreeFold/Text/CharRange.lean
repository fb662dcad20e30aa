/-!
# Ranges of characters

A character class beyond ASCII is an ascending list of code point ranges, both ends included.
-/

namespace TreeFold.Text

/-- An inclusive range of code points. -/
abbrev CharRange := Nat × Nat

/-- Whether a character lies in one of the ranges. -/
def inRanges (ranges : List CharRange) (c : Char) : Bool :=
  ranges.any fun range => range.1 ≤ c.toNat && c.toNat ≤ range.2

end TreeFold.Text
