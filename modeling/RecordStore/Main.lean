import RecordStore.CommandLine.Program

/-!
# Command line

Reads the files and the environment variables that a run depends on, runs the program, writes the
databases back to their files, and prints what the run ends with.
-/

namespace RecordStore

/-- The texts of those of the given files that can be read. -/
def readFiles (paths : List String) : IO (List (String × String)) :=
  paths.filterMapM fun (path : String) => do
    try pure (some (path, ← IO.FS.readFile path)) catch _ => pure none

/-- The environment variables that the settings look at. -/
def readEnvironment : IO Environment :=
  Settings.variableNames.filterMapM fun name => do
    pure ((← IO.getEnv name).map fun value => (name, value))

/-- Writes databases to their files. -/
def writeDatabases (databases : List (Place × Database)) : IO Unit :=
  databases.forM fun (place, db) => do
    let directory := place.up.path
    if directory ≠ "" then IO.FS.createDirAll directory
    IO.FS.writeFile place.path db.image

end RecordStore

open RecordStore in
def main (arguments : List String) : IO UInt32 := do
  let environment ← readEnvironment
  let files := FileTree.ofTexts (← readFiles (Program.textFiles arguments))
  let databases ← readFiles (Program.databaseFile? arguments environment files).toList
  let files := databases.foldl (fun tree (path, text) => Program.addDatabase tree path text) files
  let outcome := Program.run arguments environment files
  writeDatabases outcome.files.databases
  IO.print outcome.stdout
  IO.eprint outcome.stderr
  return UInt32.ofNat outcome.exitCode
