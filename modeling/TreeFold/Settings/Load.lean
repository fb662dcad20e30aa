import TreeFold.Environment
import TreeFold.Settings.Decode
import TreeFold.Settings.Layers
import TreeFold.Value.Json
import TreeFold.Value.Toml.Parser
import TreeFold.Value.Yaml.Parser

/-!
# Loading settings

The first configuration file of a directory and the variables of the environment are the layers of
the settings, the variables on top. A variable names a setting by its path, with two underscores
between the names, and its value is read as a truth value or a number where it looks like one.
-/

namespace TreeFold.Settings

open Text

/-- Why settings cannot be loaded. -/
inductive LoadError where
  /-- The file is not well formed. -/
  | malformed
  /-- A value does not suit its setting. -/
  | unsuitable
deriving DecidableEq, Repr

/-- The wording of an error. -/
def LoadError.message : LoadError → String
  | malformed => "Failed to load configuration"
  | unsuitable => "Failed to parse configuration"

/-- The reader of a format: the fields of its outermost table. -/
abbrev Format := Text → Option Value

/-- The configuration files with their formats, the first one found counts. -/
def fileNames : List (Name × Format) :=
  [("flatsplit.toml".toList, Value.Toml.parse?), ("flatsplit.yaml".toList, Value.Yaml.parse?),
    ("flatsplit.json".toList, Value.Json.parse?), (".flatsplit.toml".toList, Value.Toml.parse?)]

/-- The configuration file of a directory, with its format. -/
def file? (fs : FileSystem) (directory : Path) : Option (Path × Format) :=
  (fileNames.map fun (name, format) => (directory.child name, format)).find? fun (path, _) =>
    fs.isFile path

/-- The bytes without a byte order mark. -/
def dropMark : List UInt8 → List UInt8
  | 0xef :: 0xbb :: 0xbf :: rest => rest
  | bytes => bytes

/-- The layer of a configuration file. -/
def readFile (fs : FileSystem) (path : Path) (format : Format) :
    Except LoadError (List (Text × Value)) :=
  match fs.readBytes path with
  | .error _ => .error .malformed
  | .ok bytes =>
    match format (decodeLossy (dropMark bytes)) with
    | some (.table fields) => .ok fields
    | _ => .error .malformed

/-- The layer of the configuration file, empty when there is none. -/
def fileLayer (fs : FileSystem) (directory : Path) : Except LoadError (List (Text × Value)) :=
  match file? fs directory with
  | none => .ok []
  | some (path, format) => readFile fs path format

/-- What the names of variables for settings begin with, in lower case. -/
def variableStart : Text := "flatsplit__".toList

/-- A text with a dot for every two underscores. -/
def dotted : Text → Text
  | '_' :: '_' :: rest => '.' :: dotted rest
  | c :: rest => c :: dotted rest
  | [] => []

/-- The value of a variable. -/
def variableValue (text : Text) : Value :=
  if lower text = "true".toList then .boolean true
  else if lower text = "false".toList then .boolean false
  else
    match Number.parseInteger? text, Number.parseFloat? text with
    | some n, _ => .integer n
    | none, some x => .float x
    | none, none => .string text

/-- The key and value that a variable sets, when it is one for settings. -/
def variableField? (named : Text × Text) : Option (Text × Value) :=
  (dropStart? variableStart (lower named.1)).map fun key =>
    (dotted key, variableValue named.2)

/-- The layer of the environment. -/
def environmentLayer (environment : Environment) : List (Text × Value) :=
  environment.bindings.filterMap variableField?

/-- The settings of layers, the last one on top. -/
def ofLayers (layers : List (List (Text × Value))) : Except LoadError Settings :=
  match ofValue? (layers.foldl putLayer (.table [])) with
  | some settings => .ok settings
  | none => .error .unsuitable

/-- Load the settings for a directory. -/
def load (fs : FileSystem) (environment : Environment) (directory : Path) :
    Except LoadError Settings := do
  ofLayers [← fileLayer fs directory, environmentLayer environment]

end TreeFold.Settings
