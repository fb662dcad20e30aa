import TreeFold.Text.Basic

/-!
# Numbered file names

A number is put before the first dot of a name that is not its first character, so that a chain
of extensions stays whole and a leading dot stays in front.
-/

namespace TreeFold.FileName

/-- The name with `_n` before its extensions. -/
def numbered (name : Text) (n : Nat) : Text :=
  match name with
  | [] => '_' :: (toString n).toList
  | c :: rest =>
    c :: rest.takeWhile (· ≠ '.') ++ '_' :: (toString n).toList ++ rest.dropWhile (· ≠ '.')

end TreeFold.FileName
