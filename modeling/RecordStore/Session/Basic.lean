import RecordStore.Session.Files
import RecordStore.Database.Location
import RecordStore.Operation.Basic

/-!
# Sessions

A session holds the configuration of an application with its registered models, the connections to
its database, and the files around it. Opening the connections makes the tables of all models;
operations run on the connection that the router picks.
-/

namespace RecordStore

/-- What an open connection reaches: a database in memory, known by its number, or one in a file. -/
inductive Handle
  | memory (number : Nat)
  | file (place : Place)
deriving DecidableEq

/-- The handle on what was opened: at a place, or else the database in memory of the given number. -/
def Handle.ofPlace (number : Nat) : Option Place → Handle
  | some place => .file place
  | none => .memory number

/-- The open connections, and the databases in memory that live as long as these. -/
structure Connections where
  master : Handle
  slave : Handle
  memories : List Database

/-- Both connections reach the same database in memory. -/
def Connections.ofMemory (db : Database) : Connections := ⟨.memory 0, .memory 0, [db]⟩

def Connections.handle? (c : Connections) (name : String) : Option Handle :=
  if name = masterName then some c.master else if name = slaveName then some c.slave else none

/-- An application with its models and connections, and the planner of the databases that it makes. -/
structure Session where
  config : DatabaseConfig
  registry : Registry
  router : Router
  connections : Option Connections
  files : FileTree
  planner : Planner

namespace Session

/-- A session of a configuration, without open connections. -/
def ofConfig (config : DatabaseConfig) (router : Router) (files : FileTree)
    (planner : Planner := .default) : Except StoreError Session := do
  let registry ← (Registry.ofModels config.database config.models).mapError .validation
  .ok ⟨config, registry, router, none, files, planner⟩

/-- The handle of the open connection with the given name. -/
def handle? (s : Session) (name : String) : Option Handle := s.connections.bind (·.handle? name)

def databaseAt? (s : Session) : Handle → Option Database
  | .memory number => s.connections.bind (·.memories[number]?)
  | .file place =>
    match s.files.node? place with
    | some (.database db) => some db
    | _ => none

/-- The session with another database where a handle leads to. -/
def setDatabaseAt (s : Session) (db : Database) : Handle → Session
  | .memory number =>
    let connections := s.connections.map fun c => { c with memories := c.memories.set number db }
    { s with connections := connections }
  | .file place => { s with files := s.files.set place (.database db) }

abbrev Step := EStateM StoreError Session

/-- Runs an action on the connection of the given name. -/
def run {α : Type} (connection : String) (action : Action α) : Step α := fun s =>
  match s.handle? connection with
  | none => .error (.connection (.notInitialized connection)) s
  | some handle =>
    match s.databaseAt? handle with
    | none => .error (.connection (.notInitialized connection)) s
    | some db =>
      match action db with
      | .ok value db => .ok value (s.setDatabaseAt db handle)
      | .error e db => .error e (s.setDatabaseAt db handle)

def createTable (m : Model) : Action Unit := do
  let s ← MonadExcept.ofExcept ((m.createTable).mapError .validation)
  Action.change (fun cause => .connection (.tableNotCreated m.tableName cause)) fun db =>
    (db.createTable s).map (·, ())

/-- Opens the connections in place of open ones. In memory they are one; otherwise each opens the
path by itself. -/
def connect (location : Location) : Step Unit := fun s =>
  match location with
  | .memory => .ok () { s with connections := some (.ofMemory (.empty s.planner)) }
  | .file path =>
    match s.files.makeParent path with
    | .error lack => .error (.connection (.directoryNotCreated lack.message)) s
    | .ok files =>
      match files.openPath s.planner path with
      | .error cause => .error (.connection cause) { s with files := files }
      | .ok (files, master) =>
        match files.openPath s.planner path with
        | .error cause => .error (.connection cause) { s with files := files }
        | .ok (files, slave) =>
          let own : Database := .empty s.planner
          let connections := ⟨.ofPlace 0 master, .ofPlace 1 slave, [own, own]⟩
          .ok () { s with connections := some connections, files := files }

/-- The failure of an attempt to open the connections, with the cause named after it. -/
def initializing : StoreError → StoreError
  | .connection cause => .connection (.initializing cause)
  | e => e

/-- Opens the connections and makes the tables of all models. -/
def init : Step Unit := fun s =>
  let attempt : Step Unit := do
    let location ← MonadExcept.ofExcept ((Location.ofUri s.config.uri).mapError .connection)
    connect location
    run masterName (s.registry.models.forM createTable)
  match attempt s with
  | .ok () s => .ok () s
  | .error e s => .error (initializing e) s

/-- Closes the connections. A database in memory is lost. -/
def close : Step Unit := modify fun s => { s with connections := none }

def isClosed (s : Session) : Bool := s.connections.isNone

def perform (operation : Operation) : Step Answer := do
  let s ← get
  let (m, plan) ← MonadExcept.ofExcept (operation.plan s.registry)
  let connection := match plan.access with
    | .read => s.router.forRead m
    | .write => s.router.forWrite m
  run connection plan.action

end Session

end RecordStore
