import TreeFold.Value.Yaml.Reader

/-!
# Reading YAML

Collections in block style are nested by their columns, those in flow style by their brackets. A
key occurs once in a mapping, and is a string or an integer. Anchors name values that aliases
repeat. A file holds at most one document.
-/

namespace TreeFold.Value.Yaml

/-- What stands in front of a node: an anchor and a tag. -/
structure Properties where
  anchor? : Option Text
  tag? : Option Text

/-- The text of a key. -/
def keyText? : Value → Option Text
  | .string text => some text
  | .integer n => some (Number.integerText n)
  | _ => none

/-- Add a field to those read, which have other keys. -/
def addField? (key value : Value) (fields : List (Text × Value)) :
    Option (List (Text × Value)) := do
  let key ← keyText? key
  if fields.any (·.1 = key) then none else some (fields ++ [(key, value)])

/-- A name of an anchor, an alias or a tag. -/
def readName (inFlow : Bool) (text : Text) : Text × Text :=
  let isNameChar (c : Char) : Bool := !(isSpace c || isBreak c || (inFlow && isFlowMark c))
  (text.takeWhile isNameChar, text.dropWhile isNameChar)

/-- Read the properties of a node. -/
def readProperties (inFlow : Bool) (properties : Properties) :
    (fuel : Nat) → Reader → Properties × Reader
  | 0, r => (properties, r)
  | fuel + 1, r =>
    match r.rest with
    | '&' :: rest =>
      let (name, rest) := readName inFlow rest
      readProperties inFlow { properties with anchor? := some name } fuel
        ((r.moveTo rest).skipSpaces)
    | '!' :: rest =>
      let (name, rest) := readName inFlow rest
      readProperties inFlow { properties with tag? := some ('!' :: name) } fuel
        ((r.moveTo rest).skipSpaces)
    | _ => (properties, r)

/-- Name a value by the anchor of its node. -/
def Properties.name (properties : Properties) (value : Value) (r : Reader) : Value × Reader :=
  match properties.anchor? with
  | some anchor => (value, { r with anchors := (anchor, value) :: r.anchors })
  | none => (value, r)

/-- The value of a plain scalar with its properties. -/
def Properties.plainValue? (properties : Properties) (text : Text) : Option Value :=
  match properties.tag? with
  | some tag => taggedValue? tag text
  | none => Yaml.plainValue? text

/-- The value that an alias repeats. -/
def readAlias? (inFlow : Bool) (r : Reader) : Option (Value × Reader) := do
  let '*' :: rest := r.rest | none
  let (name, rest) := readName inFlow rest
  return (← r.anchors.lookup name, r.moveTo rest)

/-- Whether a colon that ends a key comes next, spaces skipped; the result is the reader behind
it. -/
def Reader.afterColon? (r : Reader) (inFlow quoted : Bool) : Option Reader :=
  let s := r.skipSpaces
  match s.rest with
  | ':' :: rest =>
    if startsBlank rest || (inFlow && (quoted || rest.head?.any isFlowMark)) then
      some (s.moveTo rest)
    else none
  | _ => none

/-- A scalar on one line that a colon follows: the key of a block mapping. -/
def readKey? (r : Reader) : Option (Value × Reader) :=
  match r.rest with
  | '\'' :: _ | '"' :: _ => do
    let (text, after) ← r.quoted? (r.rest.headD '"')
    let ended ← after.afterColon? false true
    if after.column ≤ r.column then none else some (.string text, ended)
  | '*' :: _ => do
    let (value, after) ← readAlias? false r
    return (value, ← after.afterColon? false false)
  | _ =>
    if startsPlain false r.rest then do
      let (text, after) := r.plainPart false
      return (← plainValue? text, ← after.afterColon? false false)
    else none

/-- Whether a mark with a blank behind it comes next. -/
def Reader.atMark (r : Reader) (mark : Char) : Bool :=
  match r.rest with
  | c :: rest => c = mark && startsBlank rest
  | [] => false

/-- Whether an item of a block sequence starts here. -/
def Reader.atItem (r : Reader) : Bool :=
  r.atMark '-'

/-- Whether a key that a question mark introduces starts here. -/
def Reader.atMarkedKey (r : Reader) : Bool :=
  r.atMark '?'

/-- The reader behind a mark and the spaces after it. -/
def Reader.behindMark (r : Reader) : Reader :=
  (r.moveTo (r.rest.drop 1)).skipSpaces

mutual

/-- A node in flow style. -/
def readFlow? : (fuel : Nat) → Reader → Option (Value × Reader)
  | 0, _ => none
  | fuel + 1, start => do
    let (properties, r) := readProperties true ⟨none, none⟩ start.rest.length start
    match r.rest with
    | '[' :: rest =>
      let (value, after) ← readFlowItems? fuel [] (r.moveTo rest)
      return properties.name value after
    | '\x7b' :: rest =>
      let (value, after) ← readFlowFields? fuel [] (r.moveTo rest)
      return properties.name value after
    | '*' :: _ => readAlias? true r
    | '\'' :: _ | '"' :: _ =>
      let (text, after) ← r.quoted? (r.rest.headD '"')
      return properties.name (.string text) after
    | _ =>
      if startsPlain true r.rest then
        let (text, after) := r.plain true 0
        return properties.name (← properties.plainValue? text) after
      else
        return properties.name (← properties.plainValue? []) r

/-- The items of a flow sequence up to its closing bracket; those read come last first. -/
def readFlowItems? : (fuel : Nat) → List Value → Reader → Option (Value × Reader)
  | 0, _, _ => none
  | fuel + 1, items, start => do
    let r := start.nextContent.2
    match r.rest with
    | [] => none
    | ']' :: rest => some (.array items.reverse, r.moveTo rest)
    | ',' :: _ => none
    | c :: _ =>
      let (key, after) ← readFlow? fuel r
      let quoted := c = '"' || c = '\'' || c = '[' || c = '\x7b'
      let (item, after) ←
        match after.afterColon? true quoted with
        | none => some (key, after)
        | some inside => do
          let (value, after) ← readFlow? fuel inside.nextContent.2
          some (.table (← addField? key value []), after)
      let r := after.nextContent.2
      match r.rest with
      | ',' :: rest => readFlowItems? fuel (item :: items) (r.moveTo rest)
      | ']' :: rest => some (.array (item :: items).reverse, r.moveTo rest)
      | _ => none

/-- The fields of a flow mapping up to its closing brace. -/
def readFlowFields? : (fuel : Nat) → List (Text × Value) → Reader → Option (Value × Reader)
  | 0, _, _ => none
  | fuel + 1, fields, start => do
    let r := start.nextContent.2
    match r.rest with
    | [] => none
    | '\x7d' :: rest => some (.table fields, r.moveTo rest)
    | ',' :: _ => none
    | c :: _ =>
      let (key, after) ← readFlow? fuel r
      let quoted := c = '"' || c = '\'' || c = '[' || c = '\x7b'
      let (value, after) ←
        match (after.nextContent.2).afterColon? true quoted with
        | none => some (Value.null, after)
        | some inside => readFlow? fuel inside.nextContent.2
      let fields ← addField? key value fields
      let r := after.nextContent.2
      match r.rest with
      | ',' :: rest => readFlowFields? fuel fields (r.moveTo rest)
      | '\x7d' :: rest => some (.table fields, r.moveTo rest)
      | _ => none

end

/-- A node that does not nest by columns: a flow collection, an alias or a scalar. Its further
lines stand at least at column `least`. -/
def readInline? (least : Nat) (properties : Properties) (r : Reader) :
    Option (Value × Reader) := do
  match r.rest with
  | '|' :: _ | '>' :: _ =>
    let (text, after) ← r.block? least
    return properties.name (.string text) after
  | '[' :: _ | '\x7b' :: _ | '*' :: _ | '\'' :: _ | '"' :: _ =>
    let (value, after) ← readFlow? (4 * r.rest.length + 4) r
    return properties.name value after
  | _ =>
    if startsPlain false r.rest then
      let (text, after) := r.plain false least
      return properties.name (← properties.plainValue? text) after
    else none

/-- The next content behind a node, which has to stand on a later line or be the end. -/
def Reader.nextLine? (r : Reader) : Option Reader :=
  match r.nextContent with
  | (crossed, next) =>
    if next.rest.isEmpty || crossed || r.column = 0 then some next else none

mutual

/-- A node in block style at the reader's content, which stands at least at column `least`. With
`onLine`, something stands before it on its line, so that no block mapping or sequence starts. -/
def readBlock? : (fuel least : Nat) → (onLine : Bool) → Properties → Reader →
    Option (Value × Reader)
  | 0, _, _, _, _ => none
  | fuel + 1, least, onLine, properties, start => do
    let (properties, r) := readProperties false properties start.rest.length start
    if startsBlank r.rest then
      let (_, next) := r.nextContent
      if next.atEnd || next.column < least then
        return properties.name (← properties.plainValue? []) next
      else readBlock? fuel least false properties next
    else if !onLine && r.atItem then
      let (value, after) ← readItems? fuel r.column [] r
      return properties.name value after
    else if !onLine && (r.atMarkedKey || (readKey? r).isSome) then
      let (value, after) ← readFields? fuel r.column [] r
      return properties.name value after
    else
      let (value, after) ← readInline? least properties r
      return (value, ← after.nextLine?)

/-- The items of a block sequence at a column; those read come last first. -/
def readItems? : (fuel column : Nat) → List Value → Reader → Option (Value × Reader)
  | 0, _, _, _ => none
  | fuel + 1, column, items, r => do
    if r.atEnd || r.column < column then return (.array items.reverse, r)
    else if r.column ≠ column then none
    else if !r.atItem then return (.array items.reverse, r)
    else
      let (item, after) ← readBlock? fuel (column + 1) false ⟨none, none⟩ r.behindMark
      readItems? fuel column (item :: items) after

/-- The fields of a block mapping at a column. -/
def readFields? : (fuel column : Nat) → List (Text × Value) → Reader → Option (Value × Reader)
  | 0, _, _, _ => none
  | fuel + 1, column, fields, r => do
    if r.atEnd || r.column < column then return (.table fields, r)
    else if r.column ≠ column then none
    else if r.atMarkedKey then
      let (key, after) ← readBlock? fuel (column + 1) false ⟨none, none⟩ r.behindMark
      let (value, after) ←
        if !after.atEnd && after.column = column && after.atMark ':' then
          readBlock? fuel (column + 1) false ⟨none, none⟩ after.behindMark
        else some (.null, after)
      readFields? fuel column (← addField? key value fields) after
    else
      let (key, after) ← readKey? r
      let (crossed, inside) := after.nextContent
      let (value, after) ←
        if inside.atEnd || (crossed && inside.column < column) then some (.null, inside)
        else if crossed && inside.column = column then
          if inside.atItem then readItems? fuel column [] inside else some (.null, inside)
        else readBlock? fuel (column + 1) (!crossed) ⟨none, none⟩ inside
      readFields? fuel column (← addField? key value fields) after

end

/-- Skip the directives in front of a document. -/
def skipDirectives : (fuel : Nat) → Reader → Reader
  | 0, r => r
  | fuel + 1, r =>
    let (_, next) := r.nextContent
    match next.rest with
    | '%' :: rest => skipDirectives fuel (next.moveTo (rest.dropWhile fun c => !isBreak c))
    | _ => next

/-- Skip the marker in front of a document. -/
def skipStart (r : Reader) : Reader :=
  match r.column, Text.dropStart? ['-', '-', '-'] r.rest with
  | 0, some rest => if startsBlank rest then (r.moveTo rest).skipSpaces else r
  | _, _ => r

/-- Whether nothing follows a document. -/
def endsFile (r : Reader) : Bool :=
  match r.column, Text.dropStart? ['.', '.', '.'] r.rest with
  | 0, some rest => startsBlank rest && (r.moveTo rest).nextContent.2.rest.isEmpty
  | _, _ => r.rest.isEmpty

/-- The value of a file of at most one document; without a document it is an empty table. -/
def parse? (text : Text) : Option Value := do
  let first := skipDirectives (text.length + 1) ⟨0, text, []⟩
  if first.rest.isEmpty then return .table []
  let (value, after) ←
    readBlock? (4 * text.length + 4) 0 false ⟨none, none⟩ (skipStart first)
  if endsFile after then return value else none

end TreeFold.Value.Yaml
