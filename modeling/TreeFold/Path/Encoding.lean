import TreeFold.Path
import TreeFold.Text.Utf8

/-!
# Paths as bytes

A path is known by what its bytes read as. Where the bytes themselves count, an encoding gives them;
those of a path that is UTF-8 are the bytes of its text.
-/

namespace TreeFold.Path

/-- The bytes that paths are written with. -/
structure Encoding where
  bytes : Path → List UInt8

namespace Encoding

/-- The encoding where all paths are UTF-8. -/
def utf8 : Encoding :=
  ⟨fun path => Text.encodeUtf8 path.text⟩

/-- The text of a path, when its bytes are UTF-8. -/
def text? (encoding : Encoding) (path : Path) : Option Text :=
  Text.decodeUtf8? (encoding.bytes path)

end Encoding

end TreeFold.Path
