/-!
# Text

A text is its list of characters. Offsets that an answer shows count the bytes of the UTF-8
form, so the byte length stands here beside the cutting and joining operations.

## Implementation notes

Literals of the program are strings; `toList` turns them into texts. A text can hold millions
of characters, hence every traversal here runs in constant stack.
-/

namespace TreeFold

/-- A text is the list of its characters. -/
abbrev Text := List Char

namespace Text

/-- The number of bytes of the UTF-8 form. -/
def byteLength (text : Text) : Nat :=
  text.foldl (fun size c => size + c.utf8Size) 0

/-- The rest of the text after `start`, when the text begins with `start`. -/
def dropStart? (start text : Text) : Option Text :=
  start.isPrefixOf? text

/-- The text without its longest end of characters satisfying `p`. -/
def trimEndWhile (p : Char → Bool) (text : Text) : Text :=
  (text.reverse.dropWhile p).reverse

/-- The text without its longest start and end of characters satisfying `p`. -/
def trimWhile (p : Char → Bool) (text : Text) : Text :=
  trimEndWhile p (text.dropWhile p)

/-- The parts before and after the first `mark`, when there is one. -/
def cutAt? (mark : Char) (text : Text) : Option (Text × Text) :=
  match text.dropWhile (· ≠ mark) with
  | [] => none
  | _ :: after => some (text.takeWhile (· ≠ mark), after)

/-- The texts in order, with `separator` between neighbours. -/
def joinWith (separator : Text) (texts : List Text) : Text :=
  List.intercalate separator texts

end Text

end TreeFold
