import RecordStore.Settings.Shape
import RecordStore.Settings.Toml
import RecordStore.Settings.Yaml
import RecordStore.Session.Files
import RecordStore.Json.Reader

/-!
# Layers of settings

The settings are read from a file and overlaid with environment variables. The format of a file
follows from the end of its name; a name without one of the known ends is tried with each of them.
-/

namespace RecordStore

abbrev Environment := List (String × String)

namespace Settings

inductive Format
  | toml
  | json
  | yaml
deriving DecidableEq

/-- The ends of the names of settings files with their formats. -/
def extensions : List (String × Format) :=
  [("toml", .toml), ("json", .json), ("yaml", .yaml), ("yml", .yaml)]

/-- The end of a file name after its last point, unless the point comes first. -/
def extension? (path : String) : Option String :=
  let name := ((splitAtEvery '/' path.toList).getLast?).getD []
  let ending := (name.reverse.takeWhile (· ≠ '.')).reverse
  if ending.length + 1 < name.length then some (String.ofList ending) else none

/-- The format of a file that is there under exactly this name. -/
def formatOf? (path : String) : Option Format := do
  let ending ← extension? path
  (extensions.find? (·.1 = ending)).map (·.2)

/-- The text of a file without the mark of its encoding. -/
def withoutMark (text : String) : String :=
  match text.toList with
  | '\ufeff' :: rest => String.ofList rest
  | _ => text

/-- The names of the files that a name may stand for: itself, or with a known end added. -/
def fileNames (path : String) : List String :=
  path :: extensions.map fun (ending, _) => path ++ "." ++ ending

/-- The file that a name stands for, with its format: the file of that name, or otherwise one with a
known end added. -/
def findFile (files : FileTree) (path : String) :
    Except SettingsError (String × Format × String) :=
  match (fileNames path).find? fun name => (files.readText name).isOk with
  | none => .error (.fileNotFound path)
  | some name =>
    match formatOf? name, files.readText name with
    | some format, .ok text => .ok (name, format, withoutMark text)
    | _, _ => .error .unknownFormat

def jsonMembers (path text : String) : Except SettingsError (List (String × Setting)) :=
  match Json.read text with
  | .ok (.object members) => .ok (Setting.ofJsonMembers members)
  | .ok _ => .error (.notATable path)
  | .error cause => .error (.malformedJson cause path)

def fileMembers (files : FileTree) (path : String) :
    Except SettingsError (List (String × Setting)) := do
  let (path, format, text) ← findFile files path
  let members? := match format with
    | .toml => Toml.read? text
    | .yaml => Yaml.read? text
    | .json => none
  match format, members? with
  | .json, _ => jsonMembers path text
  | _, some members => .ok members
  | _, none => .error (.malformedText path)

/-- The settings of a file. An empty name stands for no file. -/
def ofFile (files : FileTree) (path : String) : Except SettingsError Settings :=
  if path = "" then .ok .default
  else do
    let members ← fileMembers files path
    match (Setting.ofMembers members).settings? with
    | some settings => .ok settings
    | none => .error .wrongShape

/-- The names of the variables that are looked at. -/
def variableNames : List String :=
  ["EAZYAPI_LOG_LEVEL", "EAZYAPI_DATABASE_URI", "EAZYAPI_DATABASE_NAME"]

/-- The variables whose names start with a word and an underscore in any case, under the rest of
their names. -/
def variablesUnder (word : String) (environment : Environment) : List (String × Setting) :=
  let start := (lowercase (word ++ "_")).toList
  environment.filterMap fun (name, value) =>
    let name := (lowercase name).toList
    if start.isPrefixOf name then some (String.ofList (name.drop start.length), .text value)
    else none

def textOf? (found : List (String × Setting)) (key : String) :
    Except SettingsError (Option String) :=
  match Setting.member? (Setting.ofMembers found).members key with
  | none | some .nil => .ok none
  | some value =>
    match value.toText? with
    | some text => .ok (some text)
    | none => .error .wrongShape

/-- The settings with the values of the variables in the place of those of the file. -/
def overlay (environment : Environment) : Except SettingsError (Settings → Settings) := do
  let program := variablesUnder "EAZYAPI" environment
  let database := variablesUnder "EAZYAPI_DATABASE" environment
  let logLevel ← textOf? program "log_level"
  let uri ← textOf? database "uri"
  let name ← textOf? database "name"
  .ok fun s => ⟨⟨uri.getD s.database.uri, name.getD s.database.database, s.database.models⟩,
    logLevel.getD s.logLevel⟩

/-- The settings of a file and, if `env` says so, of the environment. -/
def build (env : Bool) (environment : Environment) (files : FileTree) (path : String) :
    Except SettingsError Settings := do
  let change ← if env then overlay environment else .ok id
  let settings ← ofFile files path
  .ok (change settings)

end Settings

end RecordStore
