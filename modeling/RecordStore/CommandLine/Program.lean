import RecordStore.CommandLine.Run
import RecordStore.Settings.Layers
import RecordStore.Database.Image

/-!
# The program

The whole program as a function: from its arguments, the environment variables and the files around
it to its exit code and what it prints.
-/

namespace RecordStore

structure Outcome where
  exitCode : Nat
  stdout : String
  stderr : String
  files : FileTree

namespace Program

def version : String := "eazyapi 0.1.1\n"

def noCommand : String :=
  "No command given, run `eazyapi --help` for the list of commands.\n"

def help : String :=
  "Generic CRUD access to the models of a SQLite database\n\nUsage: eazyapi [OPTIONS] [COMMAND]\n\n"
    ++ "Commands:\n"
    ++ String.join (CommandLine.topGrammar.subcommands.map fun name => "  " ++ name ++ "\n")

/-- Runs a command in a new session, which is closed afterwards. -/
def execute (command : Command) : Session.Step Json := do
  Session.init
  let s ← getThe Session
  match (command.run : Session.Step Json) s with
  | .ok value s =>
    set s
    Session.close
    pure value
  | .error e s =>
    set s
    Session.close
    throw e

/-- The names under which a run may look for text files: those of the settings file and of the file
to import. -/
def textFiles (arguments : List String) : List String :=
  match CommandLine.ofArguments arguments with
  | .error _ => []
  | .ok line =>
    let settings := if line.config = "" then [] else Settings.fileNames line.config
    match line.command with
    | some (.importFile _ file) => settings ++ [file]
    | _ => settings

/-- The name of the database file of a run, if it has one. -/
def databaseFile? (arguments : List String) (environment : Environment)
    (files : FileTree) : Option String :=
  match CommandLine.ofArguments arguments with
  | .error _ => none
  | .ok line =>
    match Settings.build line.env environment files line.config with
    | .error _ => none
    | .ok settings =>
      match Location.ofUri settings.database.uri with
      | .ok (.file path) => some path
      | _ => none

/-- The files with the text of a database file, which is a database if it is an image of one. -/
def addDatabase (files : FileTree) (path text : String) : FileTree :=
  match Database.ofImage? text with
  | some db => files.add path (.database db)
  | none => files.add path (.text text)

def runLine (line : CommandLine) (environment : Environment) (files : FileTree) :
    Outcome :=
  match Settings.build line.env environment files line.config with
  | .error e => ⟨1, "", e.message ++ "\n", files⟩
  | .ok settings =>
    match line.command with
    | none => ⟨0, noCommand, "", files⟩
    | some command =>
      match Session.ofConfig settings.database .default files with
      | .error e => ⟨1, "", e.message ++ "\n", files⟩
      | .ok s =>
        match execute command s with
        | .ok value s => ⟨0, value.pretty ++ "\n", "", s.files⟩
        | .error e s => ⟨1, "", e.message ++ "\n", s.files⟩

def run (arguments : List String) (environment : Environment) (files : FileTree) :
    Outcome :=
  match CommandLine.ofArguments arguments with
  | .ok line => runLine line environment files
  | .error .displayHelp => ⟨0, help, "", files⟩
  | .error .displayVersion => ⟨0, version, "", files⟩
  | .error _ => ⟨2, "", "error: invalid arguments\n", files⟩

end Program

end RecordStore
