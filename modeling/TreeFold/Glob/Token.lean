import TreeFold.Text.Utf8

/-!
# Glob patterns

A glob is a list of tokens that is matched against the whole of a path. The bytes of the path are
matched one by one, so `?` and a class take one byte each.

Matching keeps a mark for every position in the path, the end included, that can be reached by
the tokens so far. A token turns the marks before it into the marks behind it.
-/

namespace TreeFold.Glob

/-- A part of a glob. -/
inductive Token where
  | literal (c : Char)
  /-- One byte: `?`. -/
  | any
  /-- Any number of bytes: `*`. -/
  | star
  /-- Nothing, or anything up to a slash: `**/` at the start. -/
  | leadingDirectories
  /-- A slash and all that follows it: `/**` at the end. -/
  | everythingBelow
  /-- A slash, or two slashes with anything between: `/**/`. -/
  | innerDirectories
  /-- One byte of a class, or outside it. -/
  | charClass (negated : Bool) (ranges : List (Char × Char))
  /-- One of several lists of tokens. -/
  | alternatives (branches : List (List Token))
deriving Repr

/-- A parsed glob; with `keepSlash`, single wildcards do not match a slash. -/
structure Pattern where
  tokens : List Token
  keepSlash : Bool
deriving Repr

/-- The slash as a byte. -/
def slash : UInt8 := 47

/-- The marks after one byte that satisfies `p`. -/
def consume (p : UInt8 → Bool) (path : List UInt8) (marks : List Bool) : List Bool :=
  false :: List.zipWith (fun byte mark => mark && p byte) path marks

/-- The marks after any number of bytes that satisfy `p`; `reached` tells of the position before
the first mark. -/
def spread (p : UInt8 → Bool) (reached : Bool) : List UInt8 → List Bool → List Bool
  | byte :: path, mark :: marks =>
    let here := mark || reached
    here :: spread p (here && p byte) path marks
  | _, mark :: _ => [mark || reached]
  | _, [] => []

/-- The positions marked in either list. -/
def union (a b : List Bool) : List Bool :=
  List.zipWith (· || ·) a b

/-- Whether a range of a class holds a byte. A range of characters stands for the bytes of both
ends, and for all bytes from the last of the one to the first of the other. -/
def rangeHolds (range : Char × Char) (byte : UInt8) : Bool :=
  let first := Text.encodeChar range.1
  let last := Text.encodeChar range.2
  first.contains byte || last.contains byte ||
    (range.1 ≠ range.2 &&
      first.getLast?.any (· ≤ byte) && last.head?.any (byte ≤ ·))

/-- Whether a class takes a byte. -/
def classHolds (negated : Bool) (ranges : List (Char × Char)) (byte : UInt8) : Bool :=
  negated != ranges.any (rangeHolds · byte)

mutual

/-- A token that matches the empty path only, being alternatives without content. -/
def Token.isVoid : Token → Bool
  | .alternatives branches => areVoidBranches branches
  | _ => false

/-- Tokens that match the empty path only. -/
def areVoid : List Token → Bool
  | [] => true
  | token :: rest => token.isVoid && areVoid rest

/-- Branches none of which has content. -/
def areVoidBranches : List (List Token) → Bool
  | [] => true
  | branch :: rest => areVoid branch && areVoidBranches rest

end

mutual

/-- The marks behind a token. -/
def Token.advance (keepSlash : Bool) (path : List UInt8) (marks : List Bool) :
    Token → List Bool
  | .literal c => (Text.encodeChar c).foldl (fun marks b => consume (· = b) path marks) marks
  | .any => consume (fun b => !(keepSlash && b = slash)) path marks
  | .star => spread (fun b => !(keepSlash && b = slash)) false path marks
  | .leadingDirectories =>
    union (union marks (consume (· = slash) path marks))
      (consume (· = slash) path (spread (fun _ => true) false path marks))
  | .everythingBelow => spread (fun _ => true) false path (consume (· = slash) path marks)
  | .innerDirectories =>
    let behind := consume (· = slash) path marks
    union behind (consume (· = slash) path (spread (fun _ => true) false path behind))
  | .charClass negated ranges => consume (classHolds negated ranges) path marks
  | .alternatives branches =>
    if areVoidBranches branches then marks
    else advanceBranches keepSlash path marks branches

/-- The marks behind a list of tokens. -/
def advanceAll (keepSlash : Bool) (path : List UInt8) (marks : List Bool) :
    List Token → List Bool
  | [] => marks
  | token :: rest => advanceAll keepSlash path (token.advance keepSlash path marks) rest

/-- The marks behind any of the branches that have content. -/
def advanceBranches (keepSlash : Bool) (path : List UInt8) (marks : List Bool) :
    List (List Token) → List Bool
  | [] => marks.map fun _ => false
  | branch :: rest =>
    if areVoid branch then advanceBranches keepSlash path marks rest
    else union (advanceAll keepSlash path marks branch) (advanceBranches keepSlash path marks rest)

end

/-- The marks before the first token: the start of the path. -/
def startMarks (path : List UInt8) : List Bool :=
  true :: path.map fun _ => false

/-- Whether the pattern matches the bytes of a path. A pattern of leading directories alone
matches every path. -/
def Pattern.matchesBytes (pattern : Pattern) (path : List UInt8) : Bool :=
  match pattern.tokens with
  | [.leadingDirectories] => true
  | tokens => (advanceAll pattern.keepSlash path (startMarks path) tokens).getLast? = some true

/-- Whether the pattern matches a path as written. -/
def Pattern.matchesText (pattern : Pattern) (path : Text) : Bool :=
  pattern.matchesBytes (Text.encodeUtf8 path)

end TreeFold.Glob
