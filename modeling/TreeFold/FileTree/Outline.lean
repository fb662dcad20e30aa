import TreeFold.FileSystem.Read
import TreeFold.FileTree
import TreeFold.Style
import TreeFold.Walk

/-!
# Outlines

A file tree is shown as an outline: a line for each entry, behind the branches that lead to it.
Directories end in a slash, files are followed by their line count, and colours tell the kinds of
files apart.
-/

namespace TreeFold.FileTree

/-- The colour of a file by its extension. -/
def colourOf? (name : Name) : Option Colour :=
  match (Path.extension? ⟨name⟩).map String.ofList with
  | some "rs" => some .yellow
  | some "py" => some .green
  | some "js" | some "jsx" | some "ts" | some "tsx" => some .cyan
  | some "go" => some .magenta
  | some "md" | some "txt" => some .white
  | some "toml" | some "yaml" | some "yml" | some "json" => some .brightBlue
  | _ => none

/-- The label of an entry. -/
def label (coloured : Bool) (name : Name) : (lines? : Option Nat) → Text
  | none => Colour.blue.paintIf coloured name ++ ['/']
  | some lines =>
    let shown := match colourOf? name with
      | some colour => colour.paintIf coloured name
      | none => name
    shown ++ ':' :: Nat.toDigits 10 lines

/-- The lines for the entries of a tree, behind the branches of the entries above them. -/
def outlineBelow (coloured : Bool) (branches : Text) : FileTree → List Text
  | empty => []
  | entry name lines? below rest =>
    let (branch, further) := match rest with
      | empty => ("└─ ", "   ")
      | entry .. => ("├─ ", "│  ")
    (branches ++ branch.toList ++ label coloured name lines?) ::
      (outlineBelow coloured (branches ++ further.toList) below ++
        outlineBelow coloured branches rest)

/-- The outline of a tree under the directory that holds it. -/
def outline (coloured : Bool) (tree : FileTree) : List Text :=
  ['.'] :: outlineBelow coloured [] tree

/-- The names that lead from a directory to a file below it. -/
def namesBelow? (directory file : Path) : Option (List Name) :=
  (file.relativeTo? directory).map fun path => path.components.map Component.text

/-- The tree of the files that a walk from a directory lists. A file whose lines cannot be counted
has none. -/
def ofWalk (walker : Walker) (fs : FileSystem) (directory : Path) : FileTree :=
  ofRawFiles ((walker.files fs directory).filterMap fun file =>
    (namesBelow? directory file).map fun names =>
      (names.map Text.encodeUtf8, (fs.countLines file).toOption.getD 0))

end TreeFold.FileTree
