import TreeFold.Text.Line
import TreeFold.Text.Blank

/-!
# Comments

Stripping removes documentation blocks from the whole text, then looks at each line alone: a
line comment outside quotes is cut off, blanks at the end go, and a line left empty is dropped.
The lines that remain are joined by line feeds.

Blocks are removed without regard to quotes. A block opened but never closed stays, and the
characters of the opening token cannot be part of the closing one.
-/

namespace TreeFold.Comment

open Text

/-- Scan for blocks. Outside a block the state is `none`; inside, it holds the text after the
opening token, which is put back when the block is never closed. -/
def scanBlocks (kept : Text) : Option Text → Text → Text
  | none, [] => kept.reverse
  | some body, [] => kept.reverse ++ '/' :: '*' :: '*' :: body
  | none, '/' :: '*' :: '*' :: body => scanBlocks kept (some body) body
  | none, c :: rest => scanBlocks (c :: kept) none rest
  | some _, '*' :: '/' :: after => scanBlocks kept none after
  | some body, _ :: rest => scanBlocks kept (some body) rest

/-- The text without its documentation blocks. -/
def removeBlocks (text : Text) : Text :=
  scanBlocks [] none text

/-- The characters that open and close a quoted run. -/
def isQuote (c : Char) : Bool :=
  c = '"' || c = '\''

/-- The open quote after a quote character: another kind than the open one changes nothing. -/
def observeQuote (quote : Option Char) (c : Char) : Option Char :=
  match quote with
  | none => some c
  | some q => if q = c then none else some q

/-- Scan a line for a comment, `at` characters having been passed. -/
def scanLine (passed : Nat) (quote : Option Char) : Text → Option Nat
  | [] => none
  | c :: rest =>
    if isQuote c then scanLine (passed + 1) (observeQuote quote c) rest
    else if quote.isNone && c = '/' && rest.head? = some '/' then some passed
    else scanLine (passed + 1) quote rest

/-- The number of characters before the line comment, when there is one. -/
def commentIndex? (line : Text) : Option Nat :=
  scanLine 0 none line

/-- The number of bytes before the line comment, when there is one. -/
def commentOffset? (line : Text) : Option Nat :=
  (commentIndex? line).map fun i => byteLength (line.take i)

/-- The part of a line before its line comment. -/
def codeOf (line : Text) : Text :=
  match commentIndex? line with
  | some i => line.take i
  | none => line

/-- What stripping keeps of a line, when anything is left. -/
def keptLine? (line : Text) : Option Text :=
  match trimEnd (codeOf line) with
  | [] => none
  | kept => some kept

/-- The text without documentation blocks, line comments and blank lines. -/
def strip (text : Text) : Text :=
  joinWith ['\n'] ((lines (removeBlocks text)).filterMap keptLine?)

end TreeFold.Comment
