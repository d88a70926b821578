import IdlFrontEnd.Json
import IdlFrontEnd.Options
import IdlFrontEnd.Toml.Statement

/-!
# Options from settings

Settings name options by fixed keys, each at most once and in any order, or list their values in
the order of the keys; what is not there keeps its empty value. A key without meaning or a value of
another type makes the settings invalid. A settings file has nothing but a table of options, which
is written under a header, on one line, key by key with dots, or as a list. There, values after the
last option are ignored, while a list in JSON may not have any.
-/
namespace IdlFrontEnd

/-- A value as far as an option can have it. -/
inductive Setting where
  | flag (value : Bool) | texts (values : List String) | other
  deriving DecidableEq, Repr

namespace Setting

def ofTexts? (values : Option (List String)) : Setting :=
  match values with
  | some values => .texts values
  | none => .other

private def jsonText? : Json → Option String
  | .string text => some text
  | _ => none

def ofJson : Json → Setting
  | .bool value => .flag value
  | .list items => ofTexts? (items.mapM jsonText?)
  | _ => .other

private def tomlText? : Toml.Value → Option String
  | .text value => some value
  | _ => none

def ofToml : Toml.Value → Setting
  | .scalar (.flag value) => .flag value
  | .list items => ofTexts? (items.mapM tomlText?)
  | _ => .other

def flag? : Setting → Option Bool
  | .flag value => some value
  | _ => none

def texts? : Setting → Option (List String)
  | .texts values => some values
  | _ => none

end Setting

namespace Options

def keys : List String :=
  ["import_paths", "preprocessed_files", "input_files", "structured", "fail_on_parcelable"]

private def read? {α : Type} (unset : α) (value? : Setting → Option α) :
    Option Setting → Option α
  | none => some unset
  | some setting => value? setting

def ofSettings? (settings : List (String × Setting)) : Option Options := do
  let names := settings.map (·.1)
  guard (names.Nodup ∧ ∀ name ∈ names, name ∈ keys)
  let texts (key : String) := read? [] Setting.texts? (settings.lookup key)
  let flag (key : String) := read? false Setting.flag? (settings.lookup key)
  return ⟨← texts "import_paths", ← texts "preprocessed_files", ← texts "input_files",
    ← flag "structured", ← flag "fail_on_parcelable"⟩

/-- Values in the order of the keys. Those after the last key are left out. -/
def ofInOrder? (values : List Setting) : Option Options := ofSettings? (keys.zip values)

def ofJson? : Json → Option Options
  | .object fields => ofSettings? (fields.map fun (key, value) => (key, .ofJson value))
  | .list values => if values.length ≤ keys.length then ofInOrder? (values.map .ofJson) else none
  | _ => none

/-- Settings from values whose paths all lead into the table at `table`, and no further. -/
private def settingsIn? (table : List String) (values : List (List String × Toml.Value)) :
    Option (List (String × Setting)) :=
  values.mapM fun (path, value) =>
    match path.getLast? with
    | some key => if path.dropLast = table then some (key, .ofToml value) else none
    | none => none

private def ofTable? : Toml.Value → Option Options
  | .table fields => (settingsIn? [] fields).bind ofSettings?
  | .list values => ofInOrder? (values.map .ofToml)
  | _ => none

private def assigned? : Toml.Statement → Option (List String × Toml.Value)
  | .assignment path value => some (path, value)
  | .header _ => none

def ofStatements? : List Toml.Statement → Option Options
  | [.assignment ["options"] table] => ofTable? table
  | .header ["options"] :: statements => do
    ofSettings? (← settingsIn? [] (← statements.mapM assigned?))
  | statements => do
    ofSettings? (← settingsIn? ["options"] (← statements.mapM assigned?))

/-- The options that a settings file holds. -/
def ofToml? (text : String) : Option Options :=
  (Toml.Statement.ofText? text).bind ofStatements?

end Options

end IdlFrontEnd
