import TreeFold.Glob.Token
import TreeFold.Path

/-!
# Reading globs

A glob is read from left to right. Two stars stand for directories only between slashes, at an
end of the glob or of an alternative; elsewhere they are two single stars. A bracket without a
closing one is an error, or, where the reader allows it, a plain character like every later
bracket.
-/

namespace TreeFold.Glob

/-- Why a text is no glob. -/
inductive SyntaxCause where
  | unclosedClass
  | invalidRange (low high : Char)
  | unopenedAlternatives
  | unclosedAlternatives
  | danglingEscape
deriving DecidableEq, Repr

/-- The wording of a cause. -/
def SyntaxCause.message : SyntaxCause → Text
  | unclosedClass => "unclosed character class; missing ']'".toList
  | invalidRange low high =>
    "invalid range; '".toList ++ low :: "' > '".toList ++ high :: ['\'']
  | unopenedAlternatives =>
    "unopened alternate group; missing '\x7b' (maybe escape '\x7d' with '[\x7d]'?)".toList
  | unclosedAlternatives =>
    "unclosed alternate group; missing '\x7d' (maybe escape '\x7b' with '[\x7b]'?)".toList
  | danglingEscape => "dangling '\\'".toList

/-- A text that is no glob, and why. -/
structure SyntaxError where
  glob : Text
  cause : SyntaxCause
deriving DecidableEq, Repr

/-- The wording of the error. -/
def SyntaxError.message (error : SyntaxError) : Text :=
  "error parsing glob '".toList ++ error.glob ++ "': ".toList ++ error.cause.message

/-- The error as a chain of messages, the outermost first. -/
def SyntaxError.messages (error : SyntaxError) : List Text :=
  ["invalid glob '".toList ++ error.glob ++ ['\''], error.message]

/-- A class that has been read, with the characters after it. -/
structure ReadClass where
  negated : Bool
  ranges : List (Char × Char)
  rest : Text

/-- Extend the last range up to `high`. -/
def extendRange (ranges : List (Char × Char)) (high : Char) :
    Except SyntaxCause (List (Char × Char)) :=
  match ranges with
  | [] => .ok []
  | (low, _) :: before =>
    if high < low then .error (.invalidRange low high) else .ok ((low, high) :: before)

/-- Read the members of a class. The ranges so far come last first, and `waiting` tells that a dash
waits for its upper end. The result is `none` when the class is not closed. -/
def readMembers (negated : Bool) (ranges : List (Char × Char)) (atStart waiting : Bool) :
    Text → Except SyntaxCause (Option ReadClass)
  | [] => .ok none
  | c :: rest =>
    if c = ']' && !atStart then
      let members := if waiting then ('-', '-') :: ranges else ranges
      .ok (some ⟨negated, members.reverse, rest⟩)
    else if c = '-' && !atStart && !waiting then readMembers negated ranges false true rest
    else if waiting then
      match extendRange ranges c with
      | .ok extended => readMembers negated extended false false rest
      | .error cause => .error cause
    else readMembers negated ((c, c) :: ranges) false false rest

/-- Read a class behind its opening bracket. -/
def readClass : Text → Except SyntaxCause (Option ReadClass)
  | '!' :: rest => readMembers true [] true false rest
  | '^' :: rest => readMembers true [] true false rest
  | text => readMembers false [] true false text

/-- A group of alternatives being read: the finished branches and the tokens of the open one,
each last first. -/
structure Group where
  finished : List (List Token)
  tokens : List Token

/-- What has been read: the innermost group, the groups around it, and the last character. The
outermost group is the glob itself. -/
structure Progress where
  inner : Group
  outer : List Group
  previous : Option Char

namespace Progress

/-- Nothing read yet. -/
def start : Progress := ⟨⟨[], []⟩, [], none⟩

/-- Whether an alternative is being read. -/
def inAlternative (p : Progress) : Bool := !p.outer.isEmpty

/-- Add tokens that end with the character `last`. -/
def push (p : Progress) (tokens : List Token) (last : Char) : Progress :=
  { p with
    inner := { p.inner with tokens := tokens.reverse ++ p.inner.tokens }
    previous := some last }

/-- Replace the last token, unless it already covers whole directories at that end. -/
def replaceLast (p : Progress) (token : Token) (last : Char) : Progress :=
  match p.inner.tokens with
  | .leadingDirectories :: _ => { p with previous := some last }
  | .everythingBelow :: _ => { p with previous := some last }
  | _ :: before =>
    { p with inner := { p.inner with tokens := token :: before }, previous := some last }
  | [] => p

/-- Open a group of alternatives. -/
def openGroup (p : Progress) : Progress :=
  ⟨⟨[], []⟩, p.inner :: p.outer, some '\x7b'⟩

/-- Begin the next branch of the innermost group. -/
def nextBranch (p : Progress) : Progress :=
  { p with inner := ⟨p.inner.tokens.reverse :: p.inner.finished, []⟩, previous := some ',' }

/-- Close the innermost group. -/
def closeGroup? (p : Progress) : Option Progress :=
  match p.outer with
  | [] => none
  | group :: outer =>
    let branches := (p.inner.tokens.reverse :: p.inner.finished).reverse
    some ⟨{ group with tokens := .alternatives branches :: group.tokens }, outer, some '\x7d'⟩

/-- Whether two stars after what has been read may stand for directories. -/
def mayRecurse (p : Progress) : Bool :=
  p.previous = some '/' ||
    (p.inAlternative && (p.previous = some ',' || p.previous = some '\x7b'))

/-- Add two stars followed by `rest`; the result is the progress and what is left to read. -/
def doubleStar (p : Progress) (rest : Text) : Progress × Text :=
  if p.inner.tokens.isEmpty then
    match rest with
    | [] => (p.push [.leadingDirectories] '*', [])
    | '/' :: rest => (p.push [.leadingDirectories] '/', rest)
    | rest => (p.push [.star, .star] '*', rest)
  else if !p.mayRecurse then (p.push [.star, .star] '*', rest)
  else
    match rest with
    | [] => (p.replaceLast .everythingBelow '*', [])
    | '/' :: rest => (p.replaceLast .innerDirectories '/', rest)
    | c :: rest =>
      if p.inAlternative && (c = ',' || c = '\x7d') then
        (p.replaceLast .everythingBelow '*', c :: rest)
      else (p.push [.star, .star] '*', c :: rest)

end Progress

/-- How the reader treats brackets: whether one without a closing bracket is allowed, and whether
one has been met. -/
structure Brackets where
  allowUnclosed : Bool
  literal : Bool

/-- Read the characters left, with fuel for one step each. -/
def readTokens (brackets : Brackets) (p : Progress) :
    (fuel : Nat) → Text → Except SyntaxCause (List Token)
  | _, [] => if p.inAlternative then .error .unclosedAlternatives else .ok p.inner.tokens.reverse
  | 0, _ :: _ => .ok p.inner.tokens.reverse
  | fuel + 1, '*' :: '*' :: rest =>
    let (next, left) := p.doubleStar rest
    readTokens brackets next fuel left
  | fuel + 1, '[' :: rest =>
    if brackets.literal then readTokens brackets (p.push [.literal '['] '[') fuel rest
    else
      match readClass rest with
      | .error cause => .error cause
      | .ok (some found) =>
        readTokens brackets (p.push [.charClass found.negated found.ranges] ']') fuel found.rest
      | .ok none =>
        if brackets.allowUnclosed then
          readTokens { brackets with literal := true } (p.push [.literal '['] '[') fuel rest
        else .error .unclosedClass
  | fuel + 1, '\\' :: rest =>
    match rest with
    | [] => .error .danglingEscape
    | c :: rest => readTokens brackets (p.push [.literal c] c) fuel rest
  | fuel + 1, c :: rest =>
    if c = '*' then readTokens brackets (p.push [.star] c) fuel rest
    else if c = '?' then readTokens brackets (p.push [.any] c) fuel rest
    else if c = '\x7b' then readTokens brackets p.openGroup fuel rest
    else if c = '\x7d' then
      match p.closeGroup? with
      | none => .error .unopenedAlternatives
      | some closed => readTokens brackets closed fuel rest
    else if c = ',' && p.inAlternative then readTokens brackets p.nextBranch fuel rest
    else readTokens brackets (p.push [.literal c] c) fuel rest

/-- Read a glob whose single wildcards match slashes too. -/
def Pattern.parse (glob : Text) : Except SyntaxError Pattern :=
  match readTokens ⟨false, false⟩ .start glob.length glob with
  | .ok tokens => .ok ⟨tokens, false⟩
  | .error cause => .error ⟨glob, cause⟩

/-- Read a glob of an ignore file: single wildcards keep within a name, and an unclosed bracket is
a plain character. -/
def Pattern.parseIgnoreLine (glob : Text) : Except SyntaxError Pattern :=
  match readTokens ⟨true, false⟩ .start glob.length glob with
  | .ok tokens => .ok ⟨tokens, true⟩
  | .error cause => .error ⟨glob, cause⟩

/-- A set of globs; a path matches when one of them does. -/
structure Set where
  patterns : List Pattern
deriving Repr

/-- Read a list of globs; the first that cannot be read is the error. -/
def Set.parse (globs : List Text) : Except SyntaxError Set :=
  (globs.mapM Pattern.parse).map Set.mk

/-- Whether one of the globs matches a path. -/
def Set.matches (set : Set) (path : Path) : Bool :=
  set.patterns.any (·.matchesText path.text)

end TreeFold.Glob
