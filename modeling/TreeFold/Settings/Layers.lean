import TreeFold.Value.Basic

/-!
# Layers of settings

Settings come in layers that are put over each other key by key. A key is a path of names with
dots between them, and of array places in brackets. A table is merged into the table below it,
any other value replaces what is below it, and what stands in the way of a path gives way.
-/

namespace TreeFold.Settings

/-- A step of a key. -/
inductive Step where
  | name (key : Text)
  | place (index : Int)
deriving DecidableEq, Repr

/-- A character of a name in a key. -/
def isNameChar (c : Char) : Bool :=
  c.isAlphanum || c = '_' || c = '-'

/-- The steps of a key behind its first name, with fuel for one each. -/
def readSteps? : (fuel : Nat) → Text → Option (List Step)
  | _, [] => some []
  | 0, _ => none
  | fuel + 1, '.' :: rest =>
    match rest.takeWhile isNameChar with
    | [] => none
    | name => (readSteps? fuel (rest.dropWhile isNameChar)).map (.name name :: ·)
  | fuel + 1, '[' :: rest =>
    match Text.cutAt? ']' rest with
    | some (digits, after) =>
      if digits.head? = some '+' then none
      else do
        let index ← Number.parseInteger? digits
        let steps ← readSteps? fuel after
        return .place index :: steps
    | none => none
  | _, _ => none

/-- The steps of a key. A key that is no path is a single name. -/
def stepsOf (key : Text) : List Step :=
  let first := key.takeWhile isNameChar
  match if first = [] then none else readSteps? key.length (key.dropWhile isNameChar) with
  | some steps => .name first :: steps
  | none => [.name key]

mutual

/-- A value put over another. -/
def mergeOver (below : Value) : Value → Value
  | .table fields => .table (mergeFields below.fields fields)
  | value => value

/-- Fields put over others. -/
def mergeFields (below : List (Text × Value)) : List (Text × Value) → List (Text × Value)
  | [] => below
  | (key, value) :: rest =>
    mergeFields
      (Value.setField key (mergeOver ((below.lookup key).getD .null) value) below) rest

end

/-- The items with a place for an index, and that place. A negative index counts from the end. -/
def makeRoom (index : Int) (items : List Value) : List Value × Nat :=
  if 0 ≤ index then
    (items ++ List.replicate (index.toNat + 1 - items.length) .null, index.toNat)
  else
    let missing := (-index).toNat - items.length
    (List.replicate missing .null ++ items, (items.length : Int) + missing + index |>.toNat)

/-- The items of an array, and none of any other value. -/
def itemsOf : Value → List Value
  | .array items => items
  | _ => []

/-- Put a value where the steps of a key lead. -/
def putAt (value : Value) : List Step → Value → Value
  | [], below => mergeOver below value
  | .name key :: rest, below =>
    let inner := (below.fields.lookup key).getD .null
    .table (Value.setField key (putAt value rest inner) below.fields)
  | .place index :: rest, below =>
    let (items, place) := makeRoom index (itemsOf below)
    .array (items.modify place (putAt value rest))

/-- Put a layer of keys with their values over a value. -/
def putLayer (below : Value) (layer : List (Text × Value)) : Value :=
  layer.foldl (fun below (key, value) => putAt value (stepsOf key) below) below

end TreeFold.Settings
