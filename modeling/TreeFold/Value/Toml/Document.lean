import TreeFold.Value.Basic

/-!
# TOML documents

While a document is read, its tables remember how they came about: by a header of their own, on
the way to another header, or by a dotted key. A header may not define a table twice, and a
dotted key may only add to tables that dotted keys made.
-/

namespace TreeFold.Value.Toml

/-- How a table came about. -/
inductive Origin where
  /-- Defined by a header, or the document itself. -/
  | header
  /-- Needed by a header further down. -/
  | path
  /-- Needed by a dotted key. -/
  | dotted
deriving DecidableEq, Repr

/-- A part of a document. -/
inductive Node where
  /-- A value that nothing can be added to. -/
  | value (v : Value)
  | table (origin : Origin) (fields : List (Text × Node))
  /-- An array of tables, the last one first. -/
  | tables (items : List (List (Text × Node)))

/-- The fields of a table. -/
abbrev Fields := List (Text × Node)

namespace Fields

/-- The node of a key. -/
def get? (fields : Fields) (key : Text) : Option Node :=
  fields.lookup key

/-- Set the node of a key. -/
def set (key : Text) (node : Node) : Fields → Fields
  | [] => [(key, node)]
  | (k, n) :: rest => if k = key then (k, node) :: rest else (k, n) :: set key node rest

/-- Change the fields of the table that header keys lead to, making tables on the way. -/
def changeAt? (change : Fields → Option Fields) : List Text → Fields → Option Fields
  | [], fields => change fields
  | key :: rest, fields =>
    match fields.get? key with
    | none => (changeAt? change rest []).map fun inner => fields.set key (.table .path inner)
    | some (.table origin inner) =>
      (changeAt? change rest inner).map fun inner => fields.set key (.table origin inner)
    | some (.tables (last :: before)) =>
      (changeAt? change rest last).map fun last => fields.set key (.tables (last :: before))
    | some _ => none

/-- Define the table of a header. -/
def define? (keys : List Text) (fields : Fields) : Option Fields :=
  match keys.getLast? with
  | none => none
  | some key =>
    changeAt? (fun inner =>
      match inner.get? key with
      | none => some (inner.set key (.table .header []))
      | some (.table .path found) => some (inner.set key (.table .header found))
      | some _ => none) keys.dropLast fields

/-- Add a table to the array of a header. -/
def append? (keys : List Text) (fields : Fields) : Option Fields :=
  match keys.getLast? with
  | none => none
  | some key =>
    changeAt? (fun inner =>
      match inner.get? key with
      | none => some (inner.set key (.tables [[]]))
      | some (.tables items) => some (inner.set key (.tables ([] :: items)))
      | some _ => none) keys.dropLast fields

/-- Set the value of a dotted key. Every table on the way is made by dotted keys, except that a
table on the way to a header may lie further up. -/
def assign? (value : Value) : List Text → Fields → Option Fields
  | [], _ => none
  | [key], fields => if (fields.get? key).isSome then none else some (fields.set key (.value value))
  | key :: next :: rest, fields =>
    match fields.get? key with
    | none =>
      (assign? value (next :: rest) []).map fun inner => fields.set key (.table .dotted inner)
    | some (.table origin inner) =>
      if origin = .dotted || (origin = .path && !rest.isEmpty) then
        (assign? value (next :: rest) inner).map fun inner => fields.set key (.table origin inner)
      else none
    | some (.tables (last :: before)) =>
      if rest.isEmpty then none
      else (assign? value (next :: rest) last).map fun last =>
        fields.set key (.tables (last :: before))
    | some _ => none

end Fields

mutual

/-- The value of a node. -/
def Node.toValue : Node → Value
  | .value v => v
  | .table _ fields => .table (fieldsToValues fields)
  | .tables items => .array (tablesToValues items).reverse

/-- The values of the fields of a table. -/
def fieldsToValues : List (Text × Node) → List (Text × Value)
  | [] => []
  | (key, node) :: rest => (key, node.toValue) :: fieldsToValues rest

/-- The values of the tables of an array. -/
def tablesToValues : List (List (Text × Node)) → List Value
  | [] => []
  | fields :: rest => .table (fieldsToValues fields) :: tablesToValues rest

end

end TreeFold.Value.Toml
