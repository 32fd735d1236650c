import RecordStore.Database.Location
import RecordStore.Text.Joined

/-!
# What the path of a database denotes

A path is the name of a file, unless it starts with `file:`. Then it is a URI, in which codes stand
for characters and options come after the name. A URI may denote a database in memory. Every
connection that is opened on it has such a database of its own.
-/

namespace RecordStore

/-- What a path denotes. -/
inductive Target
  | file (name : String)
  /-- A database in memory for every connection. -/
  | own
deriving DecidableEq

namespace Uri

def scheme : List Char := "file:".toList

/-- The text that is written with codes of two digits for some of its characters. A zero character
ends it. Only codes of ASCII characters are read. -/
def decode : List Char → List Char
  | [] => []
  | '%' :: a :: b :: rest =>
    match Json.hexValue? a, Json.hexValue? b with
    | some high, some low =>
      let code := 16 * high + low
      if code = 0 then []
      else if code < 128 then Char.ofNat code :: decode rest
      else '%' :: decode (a :: b :: rest)
    | _, _ => '%' :: decode (a :: b :: rest)
  | c :: rest => c :: decode rest

/-- The name and the value of an option. -/
def option (text : List Char) : String × String :=
  (.ofList (decode (text.takeWhile (· ≠ '='))),
    .ofList (decode ((text.dropWhile (· ≠ '=')).drop 1)))

def modes : List String := ["ro", "rw", "rwc", "memory"]

def cacheModes : List String := ["shared", "private"]

def checkOption : String × String → Except ConnectionError Unit
  | ("mode", value) => if value ∈ modes then .ok () else .error (.noSuchMode "access" value)
  | ("cache", value) => if value ∈ cacheModes then .ok () else .error (.noSuchMode "cache" value)
  | _ => .ok ()

/-- The rest of a URI after its authority, which is this machine if it is given. -/
def afterAuthority (text : List Char) : Except ConnectionError (List Char) :=
  if "//".toList.isPrefixOf text then
    let authority := String.ofList ((text.drop 2).takeWhile (· ≠ '/'))
    if authority = "" ∨ authority = "localhost" then .ok ((text.drop 2).dropWhile (· ≠ '/'))
    else .error (.invalidAuthority authority)
  else .ok text

/-- What a URI denotes after its scheme. -/
def target (text : List Char) : Except ConnectionError Target := do
  let text := (← afterAuthority text).takeWhile (· ≠ '#')
  let name := String.ofList (decode (text.takeWhile (· ≠ '?')))
  let options := (splitAtEvery '&' ((text.dropWhile (· ≠ '?')).drop 1)).map option
  options.forM checkOption
  let mode := (options.filter (·.1 = "mode")).getLast?
  if mode = some ("mode", "memory") ∨ name = "" ∨ name = ":memory:" then .ok .own
  else .ok (.file name)

end Uri

def Target.ofPath (path : String) : Except ConnectionError Target :=
  if Uri.scheme.isPrefixOf path.toList then Uri.target (path.toList.drop Uri.scheme.length)
  else .ok (.file path)

end RecordStore
