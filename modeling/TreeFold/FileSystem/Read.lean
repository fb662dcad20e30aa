import TreeFold.FileSystem.Basic
import TreeFold.Text.Utf8

/-!
# Reading files

The text of a file is read lossily. Its lines are counted on the bytes: the line feeds, and one
more when the file does not end in one.
-/

namespace TreeFold.FileSystem

/-- The line feed as a byte. -/
def lineFeed : UInt8 := 10

/-- The number of lines of bytes, a last line without line feed included. -/
def countLineFeeds (bytes : List UInt8) : Nat :=
  if bytes = [] then 0
  else if bytes.getLast? = some lineFeed then bytes.countP (· = lineFeed)
  else bytes.countP (· = lineFeed) + 1

/-- The text of a file. -/
def readText (fs : FileSystem) (path : Path) : Except Error Text :=
  (fs.readBytes path).map Text.decodeLossy

/-- The number of lines of a file. -/
def countLines (fs : FileSystem) (path : Path) : Except Error Nat :=
  (fs.readBytes path).map countLineFeeds

end TreeFold.FileSystem
