import TreeFold.Value.Json
import TreeFold.Value.Toml.Datetime
import TreeFold.Value.Toml.Document

/-!
# Reading TOML

A document is read line by line, a value at a time. The readers take a text and give what they
have read with the text behind it. Dates and times become their text.
-/

namespace TreeFold.Value.Toml

/-- Whether a character may not stand in a comment or a string. -/
def isControl (c : Char) : Bool :=
  (c < ' ' && c ≠ '\t') || c = '\x7f'

/-- The text without spaces and tabs at its start. -/
def skipSpaces (text : Text) : Text :=
  text.dropWhile fun c => c = ' ' || c = '\t'

/-- The text behind a line break at its start. -/
def afterBreak? : Text → Option Text
  | '\n' :: rest => some rest
  | '\r' :: '\n' :: rest => some rest
  | _ => none

/-- The text behind a comment at its start, or the text itself when it does not start with one. -/
def skipComment? (text : Text) : Option Text :=
  match text with
  | '#' :: rest =>
    let rest := rest.dropWhile fun c => !isControl c
    match rest with
    | [] => some []
    | _ => (afterBreak? rest).map fun _ => rest
  | _ => some text

/-- The text behind blanks, comments and line breaks, with fuel for one step a line. -/
def skipLines? : (fuel : Nat) → Text → Option Text
  | 0, text => some text
  | fuel + 1, text => do
    let rest ← skipComment? (skipSpaces text)
    match afterBreak? rest with
    | some rest => skipLines? fuel rest
    | none => some rest

/-- The character of a code point, unless it is a surrogate or out of range. -/
def charOf? (n : Nat) : Option Char :=
  if n < 0xd800 || (0xdfff < n && n < 0x110000) then some (.ofNat n) else none

/-- The character of an escape of `count` hexadecimal digits. -/
def hexEscape? (count : Nat) (text : Text) : Option (Char × Text) := do
  let digits := text.take count
  if digits.length < count then none
  let c ← charOf? (← Number.ofDigits? 16 digits)
  return (c, text.drop count)

/-- The character of an escape whose backslash has been read. -/
def readEscape? : Text → Option (Char × Text)
  | 'b' :: rest => some ('\x08', rest)
  | 't' :: rest => some ('\t', rest)
  | 'n' :: rest => some ('\n', rest)
  | 'f' :: rest => some ('\x0c', rest)
  | 'r' :: rest => some ('\r', rest)
  | 'e' :: rest => some ('\x1b', rest)
  | '"' :: rest => some ('"', rest)
  | '\\' :: rest => some ('\\', rest)
  | 'x' :: rest => hexEscape? 2 rest
  | 'u' :: rest => hexEscape? 4 rest
  | 'U' :: rest => hexEscape? 8 rest
  | _ => none

/-- A string of one line whose opening quote has been read. -/
def readLineString? (quote : Char) (read : Text) : (fuel : Nat) → Text → Option (Text × Text)
  | 0, _ => none
  | _, [] => none
  | fuel + 1, c :: rest =>
    if c = quote then some (read.reverse, rest)
    else if c = '\\' && quote = '"' then do
      let (escaped, rest) ← readEscape? rest
      readLineString? quote (escaped :: read) fuel rest
    else if isControl c then none
    else readLineString? quote (c :: read) fuel rest

/-- Skip the blanks and line breaks behind a backslash at the end of a line. -/
def skipFolded? (text : Text) : Option Text :=
  let rest := skipSpaces text
  (afterBreak? rest).map fun rest =>
    rest.dropWhile fun c => c = ' ' || c = '\t' || c = '\n' || c = '\r'

/-- A string of several lines whose opening quotes have been read. Of the quotes at its end the
last three close it. -/
def readBlockString? (quote : Char) (read : Text) : (fuel : Nat) → Text → Option (Text × Text)
  | 0, _ => none
  | _, [] => none
  | fuel + 1, c :: rest =>
    if c = quote then
      let quotes := (c :: rest).takeWhile (· = quote)
      let after := (c :: rest).dropWhile (· = quote)
      if quotes.length < 3 then readBlockString? quote (quotes ++ read) fuel after
      else if quotes.length ≤ 5 then some (read.reverse ++ quotes.drop 3, after)
      else none
    else if c = '\\' && quote = '"' then
      match skipFolded? rest with
      | some rest => readBlockString? quote read fuel rest
      | none => do
        let (escaped, rest) ← readEscape? rest
        readBlockString? quote (escaped :: read) fuel rest
    else if c = '\n' then readBlockString? quote ('\n' :: read) fuel rest
    else if c = '\r' then
      match rest with
      | '\n' :: rest => readBlockString? quote ('\n' :: '\r' :: read) fuel rest
      | _ => none
    else if isControl c then none
    else readBlockString? quote (c :: read) fuel rest

/-- A string at the start of a text. -/
def readString? : Text → Option (Text × Text)
  | '"' :: '"' :: '"' :: rest =>
    let body := (afterBreak? rest).getD rest
    readBlockString? '"' [] body.length body
  | '\'' :: '\'' :: '\'' :: rest =>
    let body := (afterBreak? rest).getD rest
    readBlockString? '\'' [] body.length body
  | '"' :: rest => readLineString? '"' [] rest.length rest
  | '\'' :: rest => readLineString? '\'' [] rest.length rest
  | _ => none

/-- A character of a bare key. -/
def isKeyChar (c : Char) : Bool :=
  c.isAlphanum || c = '_' || c = '-'

/-- One part of a key. -/
def readKeyPart? (text : Text) : Option (Text × Text) :=
  match text with
  | '"' :: rest => readLineString? '"' [] rest.length rest
  | '\'' :: rest => readLineString? '\'' [] rest.length rest
  | _ =>
    match text.takeWhile isKeyChar with
    | [] => none
    | key => some (key, text.dropWhile isKeyChar)

/-- A key with its dots; spaces may stand around them. -/
def readKey? : (fuel : Nat) → Text → Option (List Text × Text)
  | 0, _ => none
  | fuel + 1, text => do
    let (part, rest) ← readKeyPart? (skipSpaces text)
    match skipSpaces rest with
    | '.' :: rest =>
      let (parts, rest) ← readKey? fuel rest
      return (part :: parts, rest)
    | rest => return ([part], rest)

/-- Whether underscores stand between digits only. -/
def separatesDigits (isDigit : Char → Bool) (text : Text) : Bool :=
  let parts := text.splitOn '_'
  parts.all fun part => !part.isEmpty && part.all isDigit

/-- Whether a decimal number has no needless zero at its start. -/
def hasPlainStart (digits : Text) : Bool :=
  match digits with
  | '0' :: _ :: _ => false
  | _ => true

/-- A digit of a base up to sixteen. -/
def isDigitOf (base : Nat) (c : Char) : Bool :=
  (Number.ofDigits? base [c]).isSome

/-- The base and the digits of an integer that is not decimal. -/
def splitBase? : Text → Option (Nat × Text)
  | '0' :: 'x' :: rest => some (16, rest)
  | '0' :: 'o' :: rest => some (8, rest)
  | '0' :: 'b' :: rest => some (2, rest)
  | _ => none

/-- The integer that a text is. -/
def integer? (text : Text) : Option Int := do
  match splitBase? text with
  | some (base, digits) =>
    if separatesDigits (isDigitOf base) digits then
      Number.ofSigned? base (digits.filter (· ≠ '_'))
    else none
  | none =>
    let (_, digits) := Number.splitSign text
    if separatesDigits Char.isDigit digits && hasPlainStart (digits.filter (· ≠ '_')) then
      Number.parseInteger? (text.filter (· ≠ '_'))
    else none

/-- Whether a text without its sign is a decimal with fraction or exponent. -/
def isDecimal (text : Text) : Bool :=
  let isMark (c : Char) : Bool := c = '.' || c = 'e' || c = 'E'
  let whole := text.takeWhile fun c => !isMark c
  let rest := text.dropWhile fun c => !isMark c
  let exponentOk (after : Text) : Bool :=
    separatesDigits Char.isDigit (Number.splitSign after).2
  separatesDigits Char.isDigit whole && hasPlainStart whole &&
    match rest with
    | '.' :: after =>
      let fraction := after.takeWhile fun c => !isMark c
      separatesDigits Char.isDigit fraction &&
        match after.dropWhile fun c => !isMark c with
        | [] => true
        | mark :: tail => mark ≠ '.' && exponentOk tail
    | _ :: after => exponentOk after
    | [] => false

/-- The floating point number that a text is. -/
def float? (text : Text) : Option Binary64 :=
  let (negative, rest) := Number.splitSign text
  if rest = "inf".toList then some (.infinite negative)
  else if rest = "nan".toList then some .nan
  else if !isDecimal rest then none
  else
    match Number.parseFloat? (text.filter (· ≠ '_')) with
    | some (.infinite _) => none
    | found => found

/-- The value of an unquoted text. -/
def scalar? (text : Text) : Option Value :=
  if text = "true".toList then some (.boolean true)
  else if text = "false".toList then some (.boolean false)
  else
    (integer? text).map Value.integer
      |>.or ((float? text).map Value.float)
      |>.or ((Datetime.parse? text).map Value.string)

/-- A character that ends an unquoted value. -/
def endsScalar (c : Char) : Bool :=
  c = ' ' || c = '\t' || c = '\r' || c = '\n' || c = ',' || c = ']' || c = '\x7d' || c = '#' ||
    c = '='

/-- The unquoted text at the start of a text. One space may stand between a date and a time. -/
def splitScalar (text : Text) : Text × Text :=
  let first := text.takeWhile fun c => !endsScalar c
  let rest := text.dropWhile fun c => !endsScalar c
  match (Datetime.date? first), rest with
  | some (_, []), ' ' :: d :: after =>
    if d.isDigit then
      (first ++ ' ' :: (d :: after).takeWhile fun c => !endsScalar c,
        (d :: after).dropWhile fun c => !endsScalar c)
    else (first, rest)
  | _, _ => (first, rest)

mutual

/-- A value at the start of a text. -/
def readValue? : (fuel : Nat) → Text → Option (Value × Text)
  | 0, _ => none
  | fuel + 1, text =>
    match text with
    | '"' :: _ | '\'' :: _ => (readString? text).map fun (s, rest) => (.string s, rest)
    | '[' :: rest => readItems? fuel [] rest
    | '\x7b' :: rest => readFields? fuel [] rest
    | _ =>
      let (word, rest) := splitScalar text
      (scalar? word).map (·, rest)

/-- The items of an array up to its closing bracket; those read come last first. -/
def readItems? : (fuel : Nat) → List Value → Text → Option (Value × Text)
  | 0, _, _ => none
  | fuel + 1, items, text => do
    match ← skipLines? text.length text with
    | ']' :: rest => some (.array items.reverse, rest)
    | start =>
      let (item, rest) ← readValue? fuel start
      match ← skipLines? rest.length rest with
      | ',' :: rest => readItems? fuel (item :: items) rest
      | ']' :: rest => some (.array (item :: items).reverse, rest)
      | _ => none

/-- The fields of an inline table up to its closing brace. -/
def readFields? : (fuel : Nat) → Fields → Text → Option (Value × Text)
  | 0, _, _ => none
  | fuel + 1, fields, text => do
    match ← skipLines? text.length text with
    | '\x7d' :: rest => some (.table (fieldsToValues fields), rest)
    | start =>
      let (keys, rest) ← readKey? start.length start
      let '=' :: rest := rest | none
      let (value, rest) ← readValue? fuel (skipSpaces rest)
      let fields ← Fields.assign? value keys fields
      match ← skipLines? rest.length rest with
      | ',' :: rest => readFields? fuel fields rest
      | '\x7d' :: rest => some (.table (fieldsToValues fields), rest)
      | _ => none

end

/-- A document on its way: its tables and the keys of the last header. -/
structure Progress where
  root : Fields
  header : List Text

/-- The text behind the end of a line. -/
def endLine? (text : Text) : Option Text := do
  match ← skipComment? (skipSpaces text) with
  | [] => some []
  | rest => afterBreak? rest

/-- Read one expression of a document: a header or a key with its value. -/
def readExpression? (progress : Progress) (text : Text) : Option (Progress × Text) := do
  match text with
  | '[' :: '[' :: rest =>
    let (keys, rest) ← readKey? rest.length rest
    let ']' :: ']' :: rest := rest | none
    return (⟨← progress.root.append? keys, keys⟩, rest)
  | '[' :: rest =>
    let (keys, rest) ← readKey? rest.length rest
    let ']' :: rest := rest | none
    return (⟨← progress.root.define? keys, keys⟩, rest)
  | _ =>
    let (keys, rest) ← readKey? text.length text
    let '=' :: rest := rest | none
    let start := skipSpaces rest
    let (value, rest) ← readValue? start.length start
    let root ← progress.root.changeAt? (Fields.assign? value keys) progress.header
    return (⟨root, progress.header⟩, rest)

/-- Read the expressions left, with fuel for one each. -/
def readExpressions? : (fuel : Nat) → Progress → Text → Option Fields
  | 0, _, _ => none
  | fuel + 1, progress, text => do
    match ← skipLines? text.length text with
    | [] => return progress.root
    | start =>
      let (progress, rest) ← readExpression? progress start
      readExpressions? fuel progress (← endLine? rest)

/-- The table of a document. -/
def parse? (text : Text) : Option Value :=
  (readExpressions? (text.length + 1) ⟨[], []⟩ text).map fun root => .table (fieldsToValues root)

end TreeFold.Value.Toml
