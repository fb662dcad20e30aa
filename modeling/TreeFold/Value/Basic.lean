import TreeFold.Number.Text

/-!
# Data values

The values that configuration files hold, whatever their format: a table keeps its keys in the
order in which they were set, each once.
-/

namespace TreeFold

/-- A data value. -/
inductive Value where
  | null
  | boolean (b : Bool)
  | integer (n : Int)
  | float (x : Binary64)
  | string (text : Text)
  | array (items : List Value)
  | table (fields : List (Text × Value))

namespace Value

/-- Set a key of a table's fields. -/
def setField (key : Text) (value : Value) : List (Text × Value) → List (Text × Value)
  | [] => [(key, value)]
  | (k, v) :: rest => if k = key then (k, value) :: rest else (k, v) :: setField key value rest

/-- The fields of a table, and none of any other value. -/
def fields : Value → List (Text × Value)
  | table fields => fields
  | _ => []

end Value

end TreeFold
