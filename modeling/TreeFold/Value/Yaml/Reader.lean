import TreeFold.Value.Basic
import TreeFold.Value.Json

/-!
# Reading YAML text

A reader is the text that is left, with the column it starts at, the end of input reached by
nothing left. The columns carry the nesting of block collections. This module holds the reader
with its blanks and comments, and the scalars: quoted, plain and block.

A plain scalar is a boolean, a number or nothing at all when it looks like one, and a string
otherwise; a quoted scalar is always a string.
-/

namespace TreeFold.Value.Yaml

/-- The text left, the column it starts at, and the values that anchors have named. -/
structure Reader where
  column : Nat
  rest : Text
  anchors : List (Text × Value)

/-- A space or tab. -/
def isSpace (c : Char) : Bool := c = ' ' || c = '\t'

/-- A character that ends a line. -/
def isBreak (c : Char) : Bool := c = '\n' || c = '\r'

/-- Whether a text is at its end or goes on with a blank. -/
def startsBlank (text : Text) : Bool :=
  text.head?.all fun c => isSpace c || isBreak c

/-- A character with a meaning in flow collections. -/
def isFlowMark (c : Char) : Bool :=
  c = ',' || c = '[' || c = ']' || c = '\x7b' || c = '\x7d'

/-- The text behind a line break at its start. -/
def afterBreak? : Text → Option Text
  | '\r' :: '\n' :: rest => some rest
  | '\r' :: rest => some rest
  | '\n' :: rest => some rest
  | _ => none

namespace Reader

/-- Go on to `rest`, which is on the same line. -/
def moveTo (r : Reader) (rest : Text) : Reader :=
  { r with column := r.column + (r.rest.length - rest.length), rest := rest }

/-- Go on to the start of a line. -/
def newLine (r : Reader) (rest : Text) : Reader :=
  { r with column := 0, rest := rest }

/-- Skip the spaces at the start. -/
def skipSpaces (r : Reader) : Reader :=
  r.moveTo (r.rest.dropWhile isSpace)

/-- Skip blanks, comments and line breaks; the flag tells whether a line break was among them. A
comment has a blank in front of it. -/
def skipLines (r : Reader) (crossed : Bool) : (fuel : Nat) → Bool × Reader
  | 0 => (crossed, r)
  | fuel + 1 =>
    let s := r.skipSpaces
    let afterComment : Reader :=
      if s.rest.head? = some '#' && (s.column = 0 || s.column ≠ r.column) then
        s.moveTo (s.rest.dropWhile fun c => !isBreak c)
      else s
    match afterBreak? afterComment.rest with
    | some rest => (s.newLine rest).skipLines true fuel
    | none => (crossed, afterComment)

/-- The next content, and whether it stands on a later line. -/
def nextContent (r : Reader) : Bool × Reader :=
  r.skipLines false (r.rest.length + 1)

/-- Whether a document ends here: at the end of the text or at a marker. -/
def atMarker (r : Reader) : Bool :=
  r.column = 0 && [['-', '-', '-'], ['.', '.', '.']].any fun mark =>
    (Text.dropStart? mark r.rest).any startsBlank

/-- Whether a document has no more content here. -/
def atEnd (r : Reader) : Bool :=
  r.rest.isEmpty || r.atMarker

end Reader

/-- The names of infinity and of what is no number, which no value stands for. -/
def isSpecialNumber (text : Text) : Bool :=
  match String.ofList text with
  | ".nan" | ".NaN" | ".NAN" => true
  | ".inf" | ".Inf" | ".INF" | "+.inf" | "+.Inf" | "+.INF" | "-.inf" | "-.Inf" | "-.INF" => true
  | _ => false

/-- The value of a plain scalar; a number in another base is no number with a sign. -/
def plainValue? (text : Text) : Option Value :=
  let based? : Option Int :=
    match text with
    | '0' :: 'x' :: digits => Number.ofSigned? 16 digits
    | '0' :: 'o' :: digits => Number.ofSigned? 8 digits
    | _ => none
  match based?.or (Number.parseInteger? text) with
  | some n => some (.integer n)
  | none =>
    if text = [] || text = ['~'] || text = "null".toList then some .null
    else if text = "true".toList then some (.boolean true)
    else if text = "false".toList then some (.boolean false)
    else if isSpecialNumber text then none
    else
      match if text.any Char.isDigit then Number.parseFloat? text else none with
      | some x => some (.float x)
      | none => some (.string text)

/-- The value of a plain scalar with a tag. -/
def taggedValue? (tag : Text) (text : Text) : Option Value :=
  match String.ofList tag with
  | "!!int" => some (((Number.parseInteger? text).map Value.integer).getD .null)
  | "!!float" =>
    if isSpecialNumber text then none
    else some (((Number.parseFloat? text).map Value.float).getD .null)
  | "!!bool" =>
    if text = "true".toList then some (.boolean true)
    else if text = "false".toList then some (.boolean false)
    else some .null
  | "!!null" => some .null
  | _ => some (.string text)

/-- Fold a line break in a scalar: one break is a space, further ones are kept. The result comes
last first. -/
def foldBreaks (breaks : Nat) (read : Text) : Text :=
  if breaks = 1 then ' ' :: read else List.replicate (breaks - 1) '\n' ++ read

/-- Skip a line break, blank lines and the blanks before the next content; the result is the
number of breaks. -/
def skipBreaks (breaks : Nat) : (fuel : Nat) → Text → Nat × Text
  | 0, text => (breaks, text)
  | fuel + 1, text =>
    match afterBreak? (text.dropWhile isSpace) with
    | some rest => skipBreaks (breaks + 1) fuel rest
    | none => (breaks, text)

/-- The character of an escape in a double-quoted scalar. -/
def escape? (c : Char) : Option Char :=
  match c with
  | '0' => some '\x00'
  | 'a' => some '\x07'
  | 'b' => some '\x08'
  | 't' | '\t' => some '\t'
  | 'n' => some '\n'
  | 'v' => some '\x0b'
  | 'f' => some '\x0c'
  | 'r' => some '\r'
  | 'e' => some '\x1b'
  | 'N' => some '\u0085'
  | '_' => some '\u00a0'
  | 'L' => some '\u2028'
  | 'P' => some '\u2029'
  | ' ' | '"' | '/' | '\\' => some c
  | _ => none

/-- The character of an escape of `count` hexadecimal digits. -/
def hexEscape? (count : Nat) (text : Text) : Option (Char × Text) := do
  let digits := text.take count
  if digits.length < count then none
  let n ← Number.ofDigits? 16 digits
  if n < 0xd800 || (0xdfff < n && n < 0x110000) then some (.ofNat n, text.drop count) else none

/-- The number of hexadecimal digits of an escape. -/
def hexCount? (c : Char) : Option Nat :=
  match c with
  | 'x' => some 2
  | 'u' => some 4
  | 'U' => some 8
  | _ => none

/-- A quoted scalar whose opening quote has been read; the characters so far come last first, and
`blanks` holds the blanks that count only when more follows on the line. -/
def readQuoted? (quote : Char) (read blanks : Text) : (fuel : Nat) → Text → Option (Text × Text)
  | 0, _ => none
  | _, [] => none
  | fuel + 1, c :: rest =>
    if c = quote then
      match quote, rest with
      | '\'', '\'' :: rest => readQuoted? quote ('\'' :: blanks ++ read) [] fuel rest
      | _, _ => some ((blanks ++ read).reverse, rest)
    else if isSpace c then readQuoted? quote read (c :: blanks) fuel rest
    else if isBreak c then
      let (breaks, rest) := skipBreaks 0 (rest.length + 2) (c :: rest)
      readQuoted? quote (foldBreaks breaks read) [] fuel (rest.dropWhile isSpace)
    else if c = '\\' && quote = '"' then
      match afterBreak? rest, rest with
      | some after, _ =>
        let (breaks, after) := skipBreaks 0 (after.length + 1) after
        readQuoted? quote (List.replicate breaks '\n' ++ blanks ++ read) [] fuel
          (after.dropWhile isSpace)
      | none, e :: after =>
        match hexCount? e with
        | some count => do
          let (c, after) ← hexEscape? count after
          readQuoted? quote (c :: blanks ++ read) [] fuel after
        | none => do readQuoted? quote ((← escape? e) :: blanks ++ read) [] fuel after
      | none, [] => none
    else readQuoted? quote (c :: blanks ++ read) [] fuel rest

/-- A quoted scalar at the start of the reader. -/
def Reader.quoted? (r : Reader) (quote : Char) : Option (Text × Reader) := do
  let (text, rest) ← readQuoted? quote [] [] r.rest.length (r.rest.drop 1)
  let consumed := r.rest.take (r.rest.length - rest.length)
  let lastLine := (consumed.reverse.takeWhile fun c => !isBreak c).length
  if consumed.any isBreak then some (text, { r with column := lastLine, rest })
  else some (text, r.moveTo rest)

/-- Whether a plain scalar may start here. -/
def startsPlain (inFlow : Bool) (text : Text) : Bool :=
  match text with
  | [] => false
  | c :: rest =>
    if c = '-' || c = '?' || c = ':' then
      !startsBlank rest && !(inFlow && rest.head?.any isFlowMark)
    else !(isFlowMark c || isSpace c || isBreak c ||
      ['#', '&', '*', '!', '|', '>', '\'', '"', '%', '@', '\x60'].contains c)

/-- The part of a plain scalar on one line, without the blanks at its end; `blanks` holds the
blanks that count only when more follows. -/
def plainLine (inFlow : Bool) (read blanks : Text) : Text → Text × Text
  | [] => (read.reverse, blanks.reverse)
  | c :: rest =>
    let ends :=
      isBreak c || (c = '#' && !blanks.isEmpty) || (inFlow && isFlowMark c) ||
        (c = ':' && (startsBlank rest || (inFlow && rest.head?.any isFlowMark)))
    if ends then (read.reverse, blanks.reverse ++ c :: rest)
    else if isSpace c then plainLine inFlow read (c :: blanks) rest
    else plainLine inFlow (c :: blanks ++ read) [] rest

/-- The part of a plain scalar on the line of the reader. -/
def Reader.plainPart (r : Reader) (inFlow : Bool) : Text × Reader :=
  let (part, rest) := plainLine inFlow [] [] r.rest
  (part, r.moveTo rest)

/-- Read the further lines of a plain scalar, which stand at least at column `least`. -/
def Reader.plainLines (inFlow : Bool) (least : Nat) (read : Text) :
    (fuel : Nat) → Reader → Text × Reader
  | 0, r => (read, r)
  | fuel + 1, r =>
    let (breaks, rest) := skipBreaks 0 (r.rest.length + 1) r.rest
    let next := ((r.newLine rest).skipSpaces)
    if breaks = 0 || next.atEnd || next.column < least || next.rest.head? = some '#' ||
        (inFlow && next.rest.head?.any isFlowMark) ||
        (next.rest.head? = some ':' && startsBlank (next.rest.drop 1)) then (read, r)
    else
      let (part, after) := next.plainPart inFlow
      plainLines inFlow least ((foldBreaks breaks read.reverse).reverse ++ part) fuel after

/-- A plain scalar, over several lines where they go on at least at column `least`. -/
def Reader.plain (r : Reader) (inFlow : Bool) (least : Nat) : Text × Reader :=
  let (part, after) := r.plainPart inFlow
  Reader.plainLines inFlow least part after.rest.length after

/-- How a block scalar treats the line breaks at its end. -/
inductive Chomping where
  | clip
  | strip
  | keep

/-- The header of a block scalar: its chomping and the digit of its indentation. -/
def blockHeader (chomping : Chomping) (indent? : Option Nat) :
    Text → Chomping × Option Nat × Text
  | '+' :: rest => blockHeader .keep indent? rest
  | '-' :: rest => blockHeader .strip indent? rest
  | c :: rest =>
    if '1' ≤ c && c ≤ '9' && indent?.isNone then
      blockHeader chomping (some (c.toNat - '0'.toNat)) rest
    else (chomping, indent?, c :: rest)
  | [] => (chomping, indent?, [])

/-- The lines of a block scalar: those blank or indented at least to `indent`, and the text left.
Without an indentation the first line that is not blank gives it. -/
def blockLines (least : Nat) (indent? : Option Nat) (read : List Text) :
    (fuel : Nat) → Text → List Text × Text
  | 0, text => (read.reverse, text)
  | fuel + 1, text =>
    let line := text.takeWhile fun c => !isBreak c
    let after := text.dropWhile fun c => !isBreak c
    let spaces := (line.takeWhile (· = ' ')).length
    let next := (afterBreak? after).getD []
    if text = [] then (read.reverse, text)
    else if line.all (· = ' ') then
      let kept := match indent? with
        | some indent => line.drop indent
        | none => []
      blockLines least indent? (kept :: read) fuel next
    else
      let indent := indent?.getD spaces
      if spaces < indent || indent < least then (read.reverse, text)
      else blockLines least (some indent) (line.drop indent :: read) fuel next

/-- Join the lines of a folded scalar: a break between two lines of text is a space, breaks
around indented lines are kept. -/
def foldLines (previous? : Option Text) (breaks : Nat) : List Text → Text
  | [] => []
  | [] :: rest => foldLines previous? (breaks + 1) rest
  | line :: rest =>
    let indented (text : Text) : Bool := text.head?.any isSpace
    let gap : Text :=
      match previous? with
      | none => List.replicate breaks '\n'
      | some previous =>
        if indented previous || indented line then List.replicate (breaks + 1) '\n'
        else if breaks = 0 then [' ']
        else List.replicate breaks '\n'
    gap ++ line ++ foldLines (some line) 0 rest

/-- The text of a block scalar from its lines. -/
def blockText (folded : Bool) (chomping : Chomping) (lines : List Text) : Text :=
  let body := (lines.reverse.dropWhile List.isEmpty).reverse
  let trailing := lines.length - body.length
  let text := if folded then foldLines none 0 body else Text.joinWith ['\n'] body
  match chomping with
  | .strip => text
  | .clip => if body.isEmpty then [] else text ++ ['\n']
  | .keep => text ++ List.replicate (if body.isEmpty then trailing else trailing + 1) '\n'

/-- A block scalar whose mark has not been read; its lines are indented at least to `least`. -/
def Reader.block? (r : Reader) (least : Nat) : Option (Text × Reader) := do
  let mark :: header := r.rest | none
  let (chomping, digit?, rest) := blockHeader .clip none header
  let after := (r.moveTo rest).skipSpaces
  let comment := after.rest.head? = some '#' && after.rest.length < rest.length
  let line := if comment then after.rest.dropWhile fun c => !isBreak c else after.rest
  match line, afterBreak? line with
  | [], _ => some ([], r.newLine [])
  | _, none => none
  | _, some body =>
    let indent? := digit?.map fun digit => least - 1 + digit
    let (lines, rest) := blockLines least indent? [] (body.length + 1) body
    some (blockText (mark = '>') chomping lines, r.newLine rest)

end TreeFold.Value.Yaml
