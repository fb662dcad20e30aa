import TreeFold.Text.Basic

/-!
# Paths

A path is a text that is kept as written. Its meaning is the list of its components: empty pieces
and single dots between slashes are skipped, a single dot at the start and a slash at the start
count, and two dots stay as they are. Paths are compared and ordered by their components.

A location is an absolute place without dots, the list of names below the root.
-/

namespace TreeFold

/-- The name of a directory entry. -/
abbrev Name := Text

/-- An absolute place: the names on the way from the root. -/
abbrev Location := List Name

/-- A path as written. -/
structure Path where
  text : Text
deriving DecidableEq, Repr, Inhabited

/-- A component of a path. -/
inductive Component where
  | root
  | current
  | parent
  | normal (name : Name)
deriving DecidableEq, Repr

namespace Component

/-- The text of a component. -/
def text : Component → Text
  | root => ['/']
  | current => ['.']
  | parent => ['.', '.']
  | normal name => name

/-- The component that a piece between slashes stands for, when it counts. -/
def ofPiece? (piece : Text) : Option Component :=
  if piece = [] || piece = ['.'] then none
  else if piece = ['.', '.'] then some parent
  else some (normal piece)

/-- Whether the component is an ordinary name. -/
def isNormal : Component → Bool
  | normal _ => true
  | _ => false

/-- The rank of the kinds of components, smallest first. -/
def rank : Component → Nat
  | root => 0
  | current => 1
  | parent => 2
  | normal _ => 3

/-- The order of components: by kind, names by their characters. -/
def lt (a b : Component) : Bool :=
  match a, b with
  | normal x, normal y => decide (x < y)
  | _, _ => decide (a.rank < b.rank)

end Component

namespace Path

/-- The path written by a string. -/
def ofString (s : String) : Path := ⟨s.toList⟩

/-- Whether the path starts at the root. -/
def isAbsolute (path : Path) : Bool :=
  path.text.head? = some '/'

/-- The pieces between slashes. -/
def pieces (path : Path) : List Text :=
  path.text.splitOn '/'

/-- The component at the very start that no later piece could be, with the pieces after it. -/
def leading (path : Path) : List Component × List Text :=
  match path.pieces with
  | [] => ([], [])
  | first :: rest =>
    if first = [] && !rest.isEmpty then ([.root], rest)
    else if first = ['.'] then ([.current], rest)
    else ([], first :: rest)

/-- The components of a path. -/
def components (path : Path) : List Component :=
  path.leading.1 ++ path.leading.2.filterMap Component.ofPiece?

/-- The path that a list of components is written as. -/
def ofComponents : List Component → Path
  | .root :: rest => ⟨'/' :: Text.joinWith ['/'] (rest.map Component.text)⟩
  | parts => ⟨Text.joinWith ['/'] (parts.map Component.text)⟩

/-- The path of a location. -/
def ofLocation (location : Location) : Path :=
  ofComponents (.root :: location.map .normal)

/-- Whether two paths have the same components. -/
def same (a b : Path) : Bool :=
  a.components = b.components

/-- The path with `tail` put behind it; an absolute `tail` replaces it. -/
def join (path tail : Path) : Path :=
  if tail.isAbsolute then tail
  else if path.text = [] || path.text.getLast? = some '/' then ⟨path.text ++ tail.text⟩
  else ⟨path.text ++ '/' :: tail.text⟩

/-- The path of an entry of the directory at `path`. -/
def child (path : Path) (name : Name) : Path :=
  path.join ⟨name⟩

/-- The last component, when it is an ordinary name. -/
def fileName? (path : Path) : Option Name :=
  match path.components.getLast? with
  | some (.normal name) => some name
  | _ => none

/-- The path without its last component; the root and the empty path have none. -/
def parent? (path : Path) : Option Path :=
  match path.components.getLast? with
  | none | some .root => none
  | some _ => some (ofComponents path.components.dropLast)

/-- What follows the last dot of the file name, unless the dot is its first character. -/
def extension? (path : Path) : Option Text :=
  match path.fileName? with
  | none => none
  | some name =>
    let after := name.reverse.takeWhile (· ≠ '.')
    if after.length + 1 < name.length then some after.reverse else none

/-- Whether a piece counts as a component after the start of a path. -/
def isSkipped (piece : Text) : Bool :=
  (Component.ofPiece? piece).isNone

/-- The pieces left after the given components. -/
def afterComponents? : List Component → List Text → Option (List Text)
  | [], pieces => some pieces
  | _ :: _, [] => none
  | c :: rest, piece :: pieces =>
    match Component.ofPiece? piece with
    | none => afterComponents? (c :: rest) pieces
    | some found => if found = c then afterComponents? rest pieces else none

/-- The path of pieces, without those at either end that do not count. -/
def ofPieces (pieces : List Text) : Path :=
  ⟨Text.joinWith ['/'] (((pieces.dropWhile isSkipped).reverse.dropWhile isSkipped).reverse)⟩

/-- The path relative to `base`, when its components begin with those of `base`. What is left
keeps its spelling. -/
def relativeTo? (path base : Path) : Option Path :=
  let (start, pieces) := path.leading
  match base.components with
  | [] => some ⟨start.flatMap Component.text ++
      (if start = [.current] && !pieces.all isSkipped then ['/'] else []) ++
      (Text.joinWith ['/'] (pieces.reverse.dropWhile isSkipped).reverse)⟩
  | c :: rest =>
    match start with
    | [] => (afterComponents? (c :: rest) pieces).map ofPieces
    | s :: _ => if s = c then (afterComponents? rest pieces).map ofPieces else none

/-- The path relative to `base` when it lies below it, and itself otherwise. -/
def relativeOrSelf (path base : Path) : Path :=
  (path.relativeTo? base).getD path

/-- The order of paths: component by component, a path before what lies below it. -/
def componentsLt : List Component → List Component → Bool
  | _, [] => false
  | [], _ :: _ => true
  | a :: as, b :: bs => if a = b then componentsLt as bs else a.lt b

/-- The order of paths, as a test for sorting. -/
def le (a b : Path) : Bool :=
  !componentsLt b.components a.components

/-- The paths in ascending order. -/
def sort (paths : List Path) : List Path :=
  paths.mergeSort le

end Path

end TreeFold
