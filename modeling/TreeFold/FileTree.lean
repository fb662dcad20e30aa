import TreeFold.Path
import TreeFold.Text.Utf8

/-!
# File trees

A file tree holds the entries below a directory in ascending order of their names: the first entry
with the tree below it, and the entries after it. Files carry their line count, directories none.

Names of entries are bytes, and a tree knows them by what they read as. So entries whose names read
alike are one entry of the tree, which has the count of the file that was inserted last.
-/

namespace TreeFold

/-- The entries below a directory. -/
inductive FileTree where
  | empty
  | entry (name : Name) (lines? : Option Nat) (below rest : FileTree)
deriving DecidableEq, Repr

namespace FileTree

/-- A file, given by the names that lead to it, in front of other entries. -/
def chain (lines : Nat) : List Name → FileTree → FileTree
  | [], rest => rest
  | [name], rest => entry name (some lines) empty rest
  | name :: names, rest => entry name none (chain lines names empty) rest

/-- Insert a file, given by what the names that lead to it read as. -/
def insert (lines : Nat) : List Name → FileTree → FileTree
  | names, empty => chain lines names empty
  | [], tree => tree
  | name :: names, entry other count? below rest =>
    if name = other then
      match names with
      | [] => entry other (some lines) below rest
      | _ => entry other count? (insert lines names below) rest
    else if name < other then chain lines (name :: names) (entry other count? below rest)
    else entry other count? below (insert lines (name :: names) rest)

/-- Insert a file, given by the bytes of the names that lead to it. -/
def insertFile (lines : Nat) (names : List (List UInt8)) (tree : FileTree) : FileTree :=
  tree.insert lines (names.map Text.decodeLossy)

/-- The tree of files, each given by what the names that lead to it read as, and its line count. -/
def ofFiles (files : List (List Name × Nat)) : FileTree :=
  files.foldl (fun tree (names, lines) => tree.insert lines names) empty

/-- The tree of files, each given by the bytes of the names that lead to it, and its line count. -/
def ofRawFiles (files : List (List (List UInt8) × Nat)) : FileTree :=
  files.foldl (fun tree (names, lines) => tree.insertFile lines names) empty

/-- The entries of the first levels. -/
def atMost : (levels : Nat) → FileTree → FileTree
  | 0, _ => empty
  | _ + 1, empty => empty
  | levels + 1, entry name lines? below rest =>
    entry name lines? (below.atMost levels) (rest.atMost (levels + 1))

/-- The entries of the first levels, when there is a limit. -/
def limited (depth? : Option Nat) (tree : FileTree) : FileTree :=
  match depth? with
  | some depth => tree.atMost depth
  | none => tree

end FileTree

end TreeFold
