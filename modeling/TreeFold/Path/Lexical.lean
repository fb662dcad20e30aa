import TreeFold.Path

/-!
# Lexical resolution

Paths are made absolute from the working directory and cleared of dots without asking the file
system. Two locations have a relative path that steps up from the one to the common start and
down to the other.
-/

namespace TreeFold.Path

/-- The components of the path from the root: those of the working directory come first when the
path is relative. The empty path has no absolute form. -/
def absolute? (workingDir : Location) (path : Path) : Option (List Component) :=
  if path.text = [] then none
  else
    let parts := path.components.filter (· ≠ .current)
    if path.isAbsolute then some parts
    else some (.root :: workingDir.map .normal ++ parts)

/-- Follow one component: two dots leave the last name, and the root has no parent. -/
def followComponent (location : Location) : Component → Location
  | .root => []
  | .current => location
  | .parent => location.dropLast
  | .normal name => location ++ [name]

/-- The location that a path spells, links not resolved. -/
def lexicalLocation? (workingDir : Location) (path : Path) : Option Location :=
  (path.absolute? workingDir).map fun parts => parts.foldl followComponent []

/-- The steps from `base` to `target`: up to their common start, then down. -/
def steps : (target base : Location) → List Component
  | target, [] => target.map .normal
  | [], _ :: base => List.replicate (base.length + 1) .parent
  | a :: target, b :: base =>
    if a = b then steps target base
    else List.replicate (base.length + 1) .parent ++ (a :: target).map .normal

/-- The path from `base` to `path`, both taken lexically. -/
def stepsFrom? (workingDir : Location) (path base : Path) : Option Path := do
  let target ← path.lexicalLocation? workingDir
  let start ← base.lexicalLocation? workingDir
  return ofComponents (steps target start)

/-- A path that stays below where it is put: ordinary names only, and no step up. -/
def isContained (path : Path) : Bool :=
  path.components.all fun c => c.isNormal || c = .current

end TreeFold.Path
