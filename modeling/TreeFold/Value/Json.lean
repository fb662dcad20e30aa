import TreeFold.Value.Basic

/-!
# Reading JSON

The readers take a text and give what they have read with the text behind it. A repeated key of
an object keeps its last value. Integers of sixty-four bits are kept as such, all other numbers
are floating point numbers, and a number beyond their range is an error.
-/

namespace TreeFold.Value.Json

/-- The text without blanks at its start. -/
def skipBlanks (text : Text) : Text :=
  text.dropWhile fun c => c = ' ' || c = '\t' || c = '\n' || c = '\r'

/-- How deep arrays and objects may be nested. -/
def maxDepth : Nat := 127

/-- The value of four hexadecimal digits. -/
def readHex? : Text → Option (Nat × Text)
  | a :: b :: c :: d :: rest => (Number.ofDigits? 16 [a, b, c, d]).map (·, rest)
  | _ => none

/-- The character of an escape that is a single letter. -/
def simpleEscape? (c : Char) : Option Char :=
  match c with
  | '"' | '\\' | '/' => some c
  | 'b' => some '\x08'
  | 'f' => some '\x0c'
  | 'n' => some '\n'
  | 'r' => some '\r'
  | 't' => some '\t'
  | _ => none

/-- Whether a code unit is the first of a surrogate pair. -/
def isHighSurrogate (n : Nat) : Bool := 0xd800 ≤ n && n < 0xdc00

/-- Whether a code unit is the second of a surrogate pair. -/
def isLowSurrogate (n : Nat) : Bool := 0xdc00 ≤ n && n < 0xe000

/-- The character of a code point escape, whose `\u` has been read. -/
def readCodePoint? (text : Text) : Option (Char × Text) := do
  let (first, rest) ← readHex? text
  if isHighSurrogate first then
    let '\\' :: 'u' :: rest := rest | none
    let (second, rest) ← readHex? rest
    if isLowSurrogate second then
      some (.ofNat (0x10000 + (first - 0xd800) * 0x400 + (second - 0xdc00)), rest)
    else none
  else if isLowSurrogate first then none
  else some (.ofNat first, rest)

/-- A string whose opening quote has been read, with fuel for one step a character. The
characters so far come last first. -/
def readString? (read : Text) : (fuel : Nat) → Text → Option (Text × Text)
  | 0, _ => none
  | _, [] => none
  | _ + 1, '"' :: rest => some (read.reverse, rest)
  | fuel + 1, '\\' :: 'u' :: rest => do
    let (c, rest) ← readCodePoint? rest
    readString? (c :: read) fuel rest
  | fuel + 1, '\\' :: c :: rest => do
    readString? ((← simpleEscape? c) :: read) fuel rest
  | fuel + 1, c :: rest => if c < ' ' || c = '\\' then none else readString? (c :: read) fuel rest

/-- Whether a text is an integer without needless zeros, behind an optional minus. -/
def isWholeNumber (text : Text) : Bool :=
  match text.dropWhile (· = '-') with
  | [] => false
  | '0' :: rest => rest.isEmpty
  | digits => digits.all Char.isDigit

/-- The parts of a number at the start of a text: its sign and digits, its fraction with the
point, its exponent with the letter. -/
def splitNumber (text : Text) : Text × Text × Text × Text :=
  let (sign, rest) := match text with
    | '-' :: rest => (['-'], rest)
    | _ => ([], text)
  let whole := sign ++ rest.takeWhile Char.isDigit
  let rest := rest.dropWhile Char.isDigit
  let (fraction, rest) := match rest with
    | '.' :: after => ('.' :: after.takeWhile Char.isDigit, after.dropWhile Char.isDigit)
    | _ => ([], rest)
  match rest with
  | c :: after =>
    if c = 'e' || c = 'E' then
      let (mark, after) := match after with
        | '-' :: after => (['-'], after)
        | '+' :: after => ([], after)
        | _ => ([], after)
      (whole, fraction, 'e' :: mark ++ after.takeWhile Char.isDigit, after.dropWhile Char.isDigit)
    else (whole, fraction, [], rest)
  | [] => (whole, fraction, [], [])

/-- A number at the start of a text. -/
def readNumber? (text : Text) : Option (Value × Text) := do
  let (whole, fraction, exponent, rest) := splitNumber text
  if !isWholeNumber whole || fraction = ['.'] then none
  if exponent = ['e'] || exponent = ['e', '-'] then none
  match if fraction = [] && exponent = [] && whole ≠ ['-', '0'] then
      Number.parseInteger? whole else none with
  | some n => some (.integer n, rest)
  | none =>
    match ← Number.parseFloat? (whole ++ fraction ++ exponent) with
    | .infinite _ => none
    | x => some (.float x, rest)

/-- A word with its value at the start of a text. -/
def readWord? (text : Text) : Option (Value × Text) :=
  [("null", Value.null), ("true", .boolean true), ("false", .boolean false)].findSome?
    fun (word, value) => (Text.dropStart? word.toList text).map (value, ·)

mutual

/-- A value at the start of a text, inside at most `depth` further levels. -/
def readValue? : (fuel depth : Nat) → Text → Option (Value × Text)
  | 0, _, _ => none
  | fuel + 1, depth, text =>
    match skipBlanks text with
    | '"' :: rest => (readString? [] rest.length rest).map fun (s, rest) => (.string s, rest)
    | '[' :: rest =>
      if depth = 0 then none
      else
        match skipBlanks rest with
        | ']' :: rest => some (.array [], rest)
        | rest => readItems? fuel (depth - 1) [] rest
    | '\x7b' :: rest =>
      if depth = 0 then none
      else
        match skipBlanks rest with
        | '\x7d' :: rest => some (.table [], rest)
        | rest => readFields? fuel (depth - 1) [] rest
    | rest => (readWord? rest).or (readNumber? rest)

/-- The items of an array up to its closing bracket; those read come last first. -/
def readItems? : (fuel depth : Nat) → List Value → Text → Option (Value × Text)
  | 0, _, _, _ => none
  | fuel + 1, depth, items, text => do
    let (item, rest) ← readValue? fuel depth text
    match skipBlanks rest with
    | ',' :: rest => readItems? fuel depth (item :: items) rest
    | ']' :: rest => some (.array (item :: items).reverse, rest)
    | _ => none

/-- The fields of an object up to its closing brace. -/
def readFields? : (fuel depth : Nat) → List (Text × Value) → Text → Option (Value × Text)
  | 0, _, _, _ => none
  | fuel + 1, depth, fields, text => do
    let '"' :: rest := skipBlanks text | none
    let (key, rest) ← readString? [] rest.length rest
    let ':' :: rest := skipBlanks rest | none
    let (value, rest) ← readValue? fuel depth rest
    let fields := setField key value fields
    match skipBlanks rest with
    | ',' :: rest => readFields? fuel depth fields rest
    | '\x7d' :: rest => some (.table fields, rest)
    | _ => none

end

/-- The value of a text that holds nothing else. -/
def parse? (text : Text) : Option Value := do
  let (value, rest) ← readValue? (text.length + 1) maxDepth text
  if skipBlanks rest = [] then some value else none

end TreeFold.Value.Json
