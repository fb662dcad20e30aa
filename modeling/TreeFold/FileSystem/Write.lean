import TreeFold.FileSystem.Basic
import TreeFold.Text.Utf8

/-!
# Changes to a file system

Making one directory, making a directory with all that lead to it, and replacing the contents of
a file. A change of several steps may fail after some of them; its result is then the error
together with the file system as the steps before left it.

A step fails for what is, or is not, at its path, never for want of space, and a step that fails
changes nothing: the contents of a file are replaced at once.
-/

namespace TreeFold.FileSystem

open Text

/-- The result of a change: an error when a step failed, and the file system after it. -/
structure Change where
  error? : Option Error
  fs : FileSystem

/-- The pieces before the last one and the last one, trailing slashes aside. -/
def splitLast? (path : Path) : Option (List Text × Text) :=
  match path.pieces.reverse.dropWhile (· = []) with
  | [] => none
  | last :: before => some (before.reverse, last)

/-- Whether a piece names an entry rather than a directory seen from itself. -/
def isEntryName (piece : Text) : Bool :=
  (Component.ofPiece? piece).any Component.isNormal

/-- The directory that holds the last piece of a path. -/
def directoryOf (fs : FileSystem) (path : Path) (before : List Text) :
    Except Error Location := do
  match ← fs.follow maxLinks (fs.startOf path) before with
  | ⟨location, some .directory⟩ => return location
  | ⟨_, some _⟩ => throw .notDirectory
  | ⟨_, none⟩ => throw .notFound

/-- Make one directory. A link in the place of the new directory counts as an entry. -/
def makeDirectory (fs : FileSystem) (path : Path) : Except Error FileSystem := do
  checkPath path
  match splitLast? path with
  | none => throw .alreadyExists
  | some (before, last) =>
    let holder ← fs.directoryOf path before
    if !isEntryName last then throw .alreadyExists
    else if byteLength last > maxNameLength then throw .nameTooLong
    else if (fs.get? (holder ++ [last])).isSome then throw .alreadyExists
    else return fs.put (holder ++ [last]) .directory

/-- The outcome of making a directory where an existing one is as good. -/
def settle (fs : FileSystem) (path : Path) : Except Error FileSystem → Change
  | .ok made => ⟨none, made⟩
  | .error e => if fs.isDirectory path then ⟨none, fs⟩ else ⟨some e, fs⟩

/-- Make a directory. When the directory that should hold it is missing, make that one first; its
components are given from the last to the first. -/
def makeDirectoriesFrom (fs : FileSystem) (path : Path) : List Component → Change
  | [] => ⟨none, fs⟩
  | _ :: above =>
    match fs.makeDirectory path with
    | .error .notFound =>
      match makeDirectoriesFrom fs (.ofComponents above.reverse) above with
      | ⟨none, made⟩ => settle made path (made.makeDirectory path)
      | failed => failed
    | result => settle fs path result

/-- Make a directory and all directories that lead to it. -/
def makeDirectories (fs : FileSystem) (path : Path) : Change :=
  fs.makeDirectoriesFrom path path.components.reverse

/-- Replace the contents of a file. A missing file is created, also behind a link. -/
def writeBytes (fs : FileSystem) (path : Path) (bytes : List UInt8) :
    Except Error FileSystem := do
  checkPath path
  match splitLast? path with
  | none => throw .isDirectory
  | some (before, last) =>
    if path.text.getLast? = some '/' || !isEntryName last then
      let _ ← fs.directoryOf path before
      throw .isDirectory
    else
      match ← fs.place path with
      | ⟨_, some .directory⟩ => throw .isDirectory
      | ⟨location, _⟩ => return fs.put location (.file bytes)

/-- Make a symbolic link. -/
def makeLink (fs : FileSystem) (path target : Path) : Except Error FileSystem := do
  checkPath path
  match splitLast? path with
  | none => throw .alreadyExists
  | some (before, last) =>
    let holder ← fs.directoryOf path before
    if !isEntryName last || (fs.get? (holder ++ [last])).isSome then throw .alreadyExists
    else return fs.put (holder ++ [last]) (.link target)

/-- Make the directories that lead to an entry. The working directory needs none. -/
def makeParents (fs : FileSystem) (path : Path) : Change :=
  match path.parent? with
  | some parent => fs.makeDirectories parent
  | none => ⟨none, fs⟩

/-- Make the directories that lead to an entry, then go on when that succeeded. -/
def withParents (fs : FileSystem) (path : Path)
    (next : FileSystem → Except Error FileSystem) : Change :=
  match fs.makeParents path with
  | ⟨some e, made⟩ => ⟨some e, made⟩
  | ⟨none, made⟩ =>
    match next made with
    | .ok changed => ⟨none, changed⟩
    | .error e => ⟨some e, made⟩

/-- Replace the contents of a file by a text, making the directories that lead to it. -/
def overwrite (fs : FileSystem) (path : Path) (text : Text) : Change :=
  fs.withParents path fun made => made.writeBytes path (encodeUtf8 text)

end TreeFold.FileSystem
