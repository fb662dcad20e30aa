import TreeFold.Text.Basic

/-!
# Writing JSON

The parts of a document are written values, put together by arrays and objects. An object keeps
its fields in the order given. The spread forms put every item on a line of its own.
-/

namespace TreeFold.Value.Json

/-- The escape of a character below the space, by its number. -/
def controlEscape (c : Char) : Text :=
  "\\u00".toList ++ [Nat.digitChar (c.toNat / 16), Nat.digitChar (c.toNat % 16)]

/-- A character of a written string. -/
def writeChar (c : Char) : Text :=
  match c with
  | '"' => ['\\', '"']
  | '\\' => ['\\', '\\']
  | '\x08' => ['\\', 'b']
  | '\x0c' => ['\\', 'f']
  | '\n' => ['\\', 'n']
  | '\r' => ['\\', 'r']
  | '\t' => ['\\', 't']
  | _ => if c < ' ' then controlEscape c else [c]

/-- A text as a string. -/
def writeString (text : Text) : Text :=
  '"' :: text.flatMap writeChar ++ ['"']

/-- A count as a number. -/
def writeCount (n : Nat) : Text :=
  Nat.toDigits 10 n

/-- An array. -/
def writeArray (items : List Text) : Text :=
  '[' :: Text.joinWith [','] items ++ [']']

/-- A field of an object. -/
def writeField (field : String × Text) : Text :=
  writeString field.1.toList ++ ':' :: field.2

/-- An object. -/
def writeObject (fields : List (String × Text)) : Text :=
  '\x7b' :: Text.joinWith [','] (fields.map writeField) ++ ['\x7d']

/-- Lines between two brackets, two spaces further in than `indent`, with commas between them. -/
def spread (opening closing : Char) (indent : Text) (lines : List Text) : Text :=
  match lines with
  | [] => [opening, closing]
  | _ =>
    opening :: '\n' :: Text.joinWith [',', '\n'] (lines.map (indent ++ [' ', ' '] ++ ·)) ++
      '\n' :: indent ++ [closing]

/-- A field on a line of its own. -/
def spreadField (field : String × Text) : Text :=
  writeString field.1.toList ++ ':' :: ' ' :: field.2

/-- An array of objects, each item and each field on a line of its own. -/
def writeSpreadObjects (objects : List (List (String × Text))) : Text :=
  spread '[' ']' [] (objects.map fun fields =>
    spread '\x7b' '\x7d' [' ', ' '] (fields.map spreadField))

end TreeFold.Value.Json
