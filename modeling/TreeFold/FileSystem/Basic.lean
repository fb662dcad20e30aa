import TreeFold.Path
import TreeFold.FileSystem.Error

/-!
# File systems

A file system maps locations to directories, files and symbolic links, and is seen from a working
directory. The root is always a directory.

Names of entries are UTF-8 and given as texts. Where other bytes can come in, in lists of sources,
trees of names and reports, what is read there is bytes. A file has one location, so what is written
there is seen nowhere else, and all entries can be read and changed: there are no permissions.

Resolution follows a path piece by piece. Every piece needs a directory to stand in, links are
followed wherever they occur, and at most forty of them. The last piece may name nothing: then
the result is the place where an entry could be created.
-/

namespace TreeFold

/-- What a location holds. -/
inductive Entry where
  | directory
  | file (bytes : List UInt8)
  | link (target : Path)
deriving DecidableEq, Repr

/-- The entries of a file system and the directory that relative paths start from. -/
structure FileSystem where
  entries : List (Location × Entry)
  workingDir : Location
deriving Repr

namespace FileSystem

/-- The entry at a location. -/
def get? (fs : FileSystem) (location : Location) : Option Entry :=
  match location with
  | [] => some .directory
  | _ => fs.entries.lookup location

/-- Replace the value of a key, and put the key at the end when it is new. -/
def setEntry (location : Location) (entry : Entry) :
    List (Location × Entry) → List (Location × Entry)
  | [] => [(location, entry)]
  | (key, value) :: rest =>
    if key = location then (location, entry) :: rest
    else (key, value) :: setEntry location entry rest

/-- The file system with an entry put at a location. -/
def put (fs : FileSystem) (location : Location) (entry : Entry) : FileSystem :=
  { fs with entries := setEntry location entry fs.entries }

/-- The file system without the entry at a location and all entries below it. -/
def eraseTree (fs : FileSystem) (location : Location) : FileSystem :=
  { fs with entries := fs.entries.filter fun (key, _) => !location.isPrefixOf key }

/-- The names and entries directly below a location. -/
def children (fs : FileSystem) (location : Location) : List (Name × Entry) :=
  fs.entries.filterMap fun (key, entry) =>
    match location.isPrefixOf? key with
    | some [name] => some (name, entry)
    | _ => none

/-- The length of the longest location. -/
def height (fs : FileSystem) : Nat :=
  fs.entries.foldl (fun most (key, _) => max most key.length) 0

/-- The longest name in bytes. -/
def maxNameLength : Nat := 255

/-- The longest path in bytes. -/
def maxPathLength : Nat := 4095

/-- How many links one resolution follows. -/
def maxLinks : Nat := 40

/-- A place found by resolution; the entry is absent when only the last piece is missing. -/
structure Place where
  location : Location
  entry? : Option Entry

/-- Follow pieces from a location. Where a link is met, `onLink` goes on from the directory that
holds it with the pieces of its target and the pieces left. -/
def followPieces (fs : FileSystem)
    (onLink : Location → Path → List Text → Except Error Place) :
    Location → List Text → Except Error Place
  | location, [] => .ok ⟨location, fs.get? location⟩
  | location, piece :: rest =>
    if fs.get? location ≠ some .directory then .error .notDirectory
    else if piece = [] || piece = ['.'] then followPieces fs onLink location rest
    else if piece = ['.', '.'] then followPieces fs onLink location.dropLast rest
    else if Text.byteLength piece > maxNameLength then .error .nameTooLong
    else
      match fs.get? (location ++ [piece]) with
      | none => if rest = [] then .ok ⟨location ++ [piece], none⟩ else .error .notFound
      | some (.link target) => onLink location target rest
      | some _ => followPieces fs onLink (location ++ [piece]) rest

/-- Follow pieces from a location, through at most `links` links. -/
def follow (fs : FileSystem) : (links : Nat) → Location → List Text → Except Error Place
  | 0 => followPieces fs fun _ _ _ => .error .tooManyLinks
  | links + 1 => followPieces fs fun location target rest =>
      follow fs links (if target.isAbsolute then [] else location) (target.pieces ++ rest)

/-- The location where following a path starts. -/
def startOf (fs : FileSystem) (path : Path) : Location :=
  if path.isAbsolute then [] else fs.workingDir

/-- Refuse the texts that are no path of any entry. -/
def checkPath (path : Path) : Except Error Unit :=
  if '\x00' ∈ path.text then .error .nulCharacter
  else if path.text = [] then .error .notFound
  else if Text.byteLength path.text > maxPathLength then .error .nameTooLong
  else .ok ()

/-- The place that a path names, the last piece possibly missing. -/
def place (fs : FileSystem) (path : Path) : Except Error Place := do
  checkPath path
  fs.follow maxLinks (fs.startOf path) path.pieces

/-- The location and entry that a path names. -/
def stat (fs : FileSystem) (path : Path) : Except Error (Location × Entry) := do
  match ← fs.place path with
  | ⟨location, some entry⟩ => return (location, entry)
  | ⟨_, none⟩ => throw .notFound

/-- Whether the path names anything. -/
def pathExists (fs : FileSystem) (path : Path) : Bool :=
  (fs.stat path).isOk

/-- Whether the path names a file, links followed. -/
def isFile (fs : FileSystem) (path : Path) : Bool :=
  match fs.stat path with
  | .ok (_, .file _) => true
  | _ => false

/-- Whether the path names a directory, links followed. -/
def isDirectory (fs : FileSystem) (path : Path) : Bool :=
  match fs.stat path with
  | .ok (_, .directory) => true
  | _ => false

/-- The bytes of the file that a path names. -/
def readBytes (fs : FileSystem) (path : Path) : Except Error (List UInt8) := do
  match ← fs.stat path with
  | (_, .file bytes) => return bytes
  | _ => throw .isDirectory

end FileSystem

end TreeFold
