import TreeFold.Alias
import TreeFold.Text.Line
import TreeFold.Text.Blank
import TreeFold.Text.Word

/-!
# Annotations and segments

An annotated blob holds several files. An annotation line, such as `// src/user.ts`, names the
path of the lines after it. One blank line directly after an annotation is not part of the
content, lines before the first annotation belong to no file, and an annotation without content
yields no segment.

The lines are grouped by a fold from the right: a line joins the body of the annotation above it.
-/

namespace TreeFold

/-- A path named by an annotation line. -/
structure PathLabel where
  /-- The path as written. -/
  raw : Text
  /-- The path after alias rules. -/
  path : Text
deriving DecidableEq, Repr

/-- The content of an annotated blob that belongs to one path. -/
structure Segment where
  path : Text
  /-- The path as written in the annotation. -/
  raw : Text
  /-- The lines of the content with their breaks. -/
  content : Text
deriving DecidableEq, Repr

namespace PathLabel

open Text

/-- The characters of an annotated path. -/
def isPathChar (c : Char) : Bool :=
  isWord c || c = '-' || c = '.' || c = '/'

/-- Split a run of path characters, given in reverse, at its last dot that has a character before
it and a word character after it. The parts are the stem and what stands after the dot. -/
def splitAtExtension (after : Text) : Text → Option (Text × Text)
  | [] => none
  | c :: rest =>
    if c = '.' && !rest.isEmpty && after.head?.any isWord then some (rest.reverse, after)
    else splitAtExtension (c :: after) rest

/-- The path at the start of a text: the longest run of path characters, cut behind the last
extension in it. -/
def pathToken? (text : Text) : Option Text :=
  (splitAtExtension [] (text.takeWhile isPathChar).reverse).map fun (stem, after) =>
    stem ++ '.' :: after.takeWhile isWord

/-- The rest of a line after the comment token that may introduce an annotation. -/
def afterToken? : Text → Option Text
  | '/' :: '/' :: rest => some rest
  | '#' :: rest => some rest
  | _ => none

/-- The path as written by an annotation line: after spaces and tabs a comment token, blanks, and
a path that may begin with an alias mark. -/
def rawPath? (line : Text) : Option Text :=
  (afterToken? (line.dropWhile fun c => c = ' ' || c = '\t')).bind fun rest =>
    match rest.dropWhile isBlank with
    | '@' :: path => (pathToken? path).map ('@' :: ·)
    | path => pathToken? path

/-- The annotation that a line holds. -/
def ofLine? (rules : List AliasRule) (line : Text) : Option PathLabel :=
  (rawPath? line).map fun raw => ⟨raw, AliasRule.normalize rules raw⟩

end PathLabel

namespace Segment

open Text

/-- The number of lines of the content. -/
def lineCount (segment : Segment) : Nat :=
  (linesInclusive segment.content).length

/-- The number of bytes of the content. -/
def byteLength (segment : Segment) : Nat :=
  Text.byteLength segment.content

/-- The lines before the first annotation, and each annotation with the lines below it. -/
structure Grouping where
  preamble : List Text
  sections : List (PathLabel × List Text)

/-- Put a line in front of grouped lines. -/
def Grouping.cons (rules : List AliasRule) (line : Text) (grouping : Grouping) : Grouping :=
  match PathLabel.ofLine? rules line with
  | some label => ⟨[], (label, grouping.preamble) :: grouping.sections⟩
  | none => ⟨line :: grouping.preamble, grouping.sections⟩

/-- The lines grouped under the annotations among them. -/
def group (rules : List AliasRule) (parts : List Text) : Grouping :=
  parts.foldr (Grouping.cons rules) ⟨[], []⟩

/-- The lines below an annotation without one blank line at their start. -/
def dropBlankLine : List Text → List Text
  | [] => []
  | line :: rest => if isBlankText (trimLineBreak line) then rest else line :: rest

/-- The segment of an annotation and the lines below it, when any content is left. -/
def ofSection? : PathLabel × List Text → Option Segment
  | (label, body) =>
    match dropBlankLine body with
    | [] => none
    | content => some ⟨label.path, label.raw, content.flatten⟩

/-- The segments of a blob in the order of their annotations. -/
def extract (rules : List AliasRule) (blob : Text) : List Segment :=
  (group rules (linesInclusive blob)).sections.filterMap ofSection?

end Segment

end TreeFold
