import RecordStore.Model.Definition

/-!
# Where databases are kept, and how they are reached

A URI names a database in memory or in a file. An application reaches its database over two
connections, one to write and one to read.
-/

namespace RecordStore

inductive Location
  | memory
  | file (path : String)
deriving DecidableEq

def Location.scheme : List Char := "sqlite://".toList

def Location.ofUri (uri : String) : Except ConnectionError Location :=
  if Location.scheme.isPrefixOf uri.toList then
    let path := String.ofList (uri.toList.drop Location.scheme.length)
    if path = "" then .error (.missingPath uri)
    else if path = ":memory:" then .ok .memory
    else .ok (.file path)
  else .error (.unsupportedUri uri)

/-- The name of the connection for writing. -/
def masterName : String := "master"

/-- The name of the connection for reading. -/
def slaveName : String := "slave"

/-- Which connections the operations on each model run on. -/
structure Router where
  forRead : Model → String
  forWrite : Model → String

def Router.constant (read write : String) : Router := ⟨fun _ => read, fun _ => write⟩

/-- Reads on the one connection and writes on the other. -/
def Router.default : Router := .constant slaveName masterName

namespace DatabaseConfig

def default : DatabaseConfig := ⟨"sqlite://:memory:", "default", []⟩

def layout (c : DatabaseConfig) : Json :=
  .object [("connections", .object [(masterName, .string c.uri), (slaveName, .string c.uri)]),
    ("apps", .object [(c.database, .object [
      ("models", .array (c.models.map fun m => .string m.name)),
      ("default_connection", .string masterName)])]),
    ("routers", .array [.string "eazyapi::database::DefaultRouter"])]

end DatabaseConfig

end RecordStore
