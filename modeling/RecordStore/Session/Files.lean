import RecordStore.Database.Basic
import RecordStore.Database.Target
import RecordStore.Text.Joined

/-!
# Files

A tree of directories, text files and databases, seen from a working directory. Paths are followed
step by step: every step but the last has to lead to a directory.
-/

namespace RecordStore

/-- What stands at a place in the tree. -/
inductive Node
  | directory
  | text (content : String)
  | database (db : Database)

/-- A place in the tree: the steps to it from the working directory. A first step `/` starts at the
root instead, and first steps `..` lead upward. -/
abbrev Place := List String

/-- The places that are taken besides the working directory and those above it. -/
structure FileTree where
  entries : List (Place × Node)

/-- Why a path leads nowhere. -/
inductive Lack
  | missing
  | notDirectory
  | isDirectory
  | notText
  | zeroCharacter
deriving DecidableEq

def Lack.message : Lack → String
  | .missing => "No such file or directory (os error 2)"
  | .notDirectory => "Not a directory (os error 20)"
  | .isDirectory => "Is a directory (os error 21)"
  | .notText => "stream did not contain valid UTF-8"
  | .zeroCharacter => "file name contained an unexpected NUL byte"

/-- A path: where it starts, its steps, and whether it must end at a directory. -/
structure Route where
  start : Place
  steps : List String
  toDirectory : Bool
deriving DecidableEq

/-- The path that a text denotes. Empty steps and steps `.` go nowhere. -/
def Route.ofString (path : String) : Route :=
  let parts := (splitAtEvery '/' path.toList).map String.ofList
  let start := if "/".toList.isPrefixOf path.toList then ["/"] else []
  let last := parts.getLast?.getD ""
  ⟨start, parts.filter fun step => step ≠ "" ∧ step ≠ ".", last = "" ∨ last = "."⟩

def Route.parent (r : Route) : Route := ⟨r.start, r.steps.dropLast, false⟩

def Place.up (place : Place) : Place :=
  match place with
  | [] => [".."]
  | ["/"] => ["/"]
  | steps => if steps.getLast? = some ".." then steps ++ [".."] else steps.dropLast

def Place.step (place : Place) (step : String) : Place :=
  if step = ".." then place.up else place ++ [step]

/-- The text of the path to a place. -/
def Place.path (place : Place) : String :=
  match place with
  | "/" :: steps => "/" ++ String.intercalate "/" steps
  | steps => String.intercalate "/" steps

/-- The place that a path leads to where all steps but the last lead to directories. -/
def Route.place (r : Route) : Place := r.steps.foldl Place.step r.start

namespace FileTree

def node? (tree : FileTree) (place : Place) : Option Node :=
  if place = [] ∨ place = ["/"] ∨ place.all (· = "..") then some .directory
  else (tree.entries.find? (·.1 = place)).map (·.2)

def set (tree : FileTree) (place : Place) (node : Node) : FileTree :=
  if tree.entries.any (·.1 = place) then
    ⟨tree.entries.map fun (p, n) => if p = place then (p, node) else (p, n)⟩
  else ⟨tree.entries ++ [(place, node)]⟩

/-- Follows the steps of a path from a place. -/
def follow (tree : FileTree) (place : Place) : List String → Except Lack Place
  | [] => .ok place
  | step :: steps =>
    match tree.node? place with
    | some .directory => follow tree (place.step step) steps
    | some _ => .error .notDirectory
    | none => .error .missing

def find (tree : FileTree) (route : Route) : Except Lack (Place × Node) := do
  let place ← tree.follow route.start route.steps
  match tree.node? place with
  | none => .error .missing
  | some .directory => .ok (place, .directory)
  | some node => if route.toDirectory then .error .notDirectory else .ok (place, node)

/-- The tree with directories made along the steps of a path. -/
def makeDirectories (tree : FileTree) (place : Place) : List String → Except Lack FileTree
  | [] => .ok tree
  | step :: steps =>
    let next := place.step step
    match tree.node? next with
    | some .directory => makeDirectories tree next steps
    | some _ => .error .notDirectory
    | none => makeDirectories (tree.set next .directory) next steps

def readText (tree : FileTree) (path : String) : Except Lack String :=
  if path = "" then .error .missing
  else if path.toList.contains '\x00' then .error .zeroCharacter
  else do
    match ← tree.find (.ofString path) with
    | (_, .text content) => .ok content
    | (_, .directory) => .error .isDirectory
    | (_, .database _) => .error .notText

/-- The tree with a node at the end of a path, and the directories that hold it. A path that leads
through something else than a directory is left out. -/
def add (tree : FileTree) (path : String) (node : Node) : FileTree :=
  let route := Route.ofString path
  match tree.makeDirectories route.start route.parent.steps with
  | .ok tree => tree.set route.place node
  | .error _ => tree

def ofTexts (files : List (String × String)) : FileTree :=
  files.foldl (fun tree (path, content) => tree.add path (.text content)) ⟨[]⟩

def databases (tree : FileTree) : List (Place × Database) :=
  tree.entries.filterMap fun
    | (place, .database db) => some (place, db)
    | _ => none

/-- The tree with the directory that holds the end of a path made, unless something is there. -/
def makeParent (tree : FileTree) (path : String) : Except Lack FileTree :=
  let route := Route.ofString path
  if route.parent.steps.any (·.toList.contains '\x00') then .error .zeroCharacter
  else match tree.find route.parent with
    | .ok _ => .ok tree
    | .error _ => tree.makeDirectories route.start route.parent.steps

/-- Opens the database in a file, which is made if it is not there. An empty file is a database
without tables, and gets the given planner. The path is the one to be named if this fails. -/
def openDatabase (planner : Planner) (tree : FileTree) (path name : String) :
    Except ConnectionError (FileTree × Place) :=
  let route := Route.ofString name
  match tree.follow route.start route.steps with
  | .error _ => .error (.notOpened path)
  | .ok place =>
    match tree.node? place with
    | some (.database _) => .ok (tree, place)
    | some (.text "") | none => .ok (tree.set place (.database (.empty planner)), place)
    | some (.text _) => .error .notADatabase
    | some .directory => .error (.notOpened path)

/-- Opens what a path denotes, at a place unless it is a database in memory. -/
def openPath (planner : Planner) (tree : FileTree) (path : String) :
    Except ConnectionError (FileTree × Option Place) :=
  if path.toList.contains '\x00' then
    .error (.zeroInPath (String.ofList (path.toList.takeWhile (· ≠ '\x00'))).utf8ByteSize)
  else do
    match ← Target.ofPath path with
    | .own => .ok (tree, none)
    | .file name =>
      let (tree, place) ← tree.openDatabase planner path name
      .ok (tree, some place)

end FileTree

end RecordStore
