import TreeFold.Text.Basic

/-!
# Styled text

A text is coloured by writing it between two control sequences of the terminal, one that chooses
the colour and one that goes back to the colour before.
-/

namespace TreeFold

/-- The colours in use. -/
inductive Colour where
  | red
  | green
  | yellow
  | blue
  | magenta
  | cyan
  | white
  | brightBlue
deriving DecidableEq, Repr

namespace Colour

/-- The number of a colour in a control sequence. -/
def code : Colour → String
  | red => "31"
  | green => "32"
  | yellow => "33"
  | blue => "34"
  | magenta => "35"
  | cyan => "36"
  | white => "37"
  | brightBlue => "94"

/-- A text in a colour. -/
def paint (colour : Colour) (text : Text) : Text :=
  "\x1b[".toList ++ colour.code.toList ++ ['m'] ++ text ++ "\x1b[39m".toList

/-- A text in a colour when colours are wanted. -/
def paintIf (wanted : Bool) (colour : Colour) (text : Text) : Text :=
  if wanted then colour.paint text else text

end Colour

/-- A text in bold when styles are wanted. -/
def boldIf (wanted : Bool) (text : Text) : Text :=
  if wanted then "\x1b[1m".toList ++ text ++ "\x1b[0m".toList else text

end TreeFold
