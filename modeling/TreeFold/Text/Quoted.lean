import TreeFold.Text.Basic
import TreeFold.Text.Printable

/-!
# Quoted text

A text between quotes, with an escape for every character that could not be told apart from
others when shown: quotes, backslashes, line breaks, extending characters and those without a form
of their own.
-/

namespace TreeFold.Text

/-- The code point of a character as an escape. -/
def codePointEscape (c : Char) : Text :=
  "\\u\x7b".toList ++ Nat.toDigits 16 c.toNat ++ ['\x7d']

/-- A character between quotes. -/
def quotedChar (c : Char) : Text :=
  match c with
  | '\x00' => ['\\', '0']
  | '\t' => ['\\', 't']
  | '\r' => ['\\', 'r']
  | '\n' => ['\\', 'n']
  | '"' => ['\\', '"']
  | '\\' => ['\\', '\\']
  | _ => if isExtend c || !isPrintable c then codePointEscape c else [c]

/-- A text between quotes. -/
def quoted (text : Text) : Text :=
  '"' :: text.flatMap quotedChar ++ ['"']

/-- Texts between quotes, in brackets. -/
def quotedList (texts : List Text) : Text :=
  '[' :: joinWith [',', ' '] (texts.map quoted) ++ [']']

end TreeFold.Text
