import RecordStore.CommandLine.Arguments

/-!
# Commands

The commands of the program, one for each operation on records, and how they are written. Values are
kept as text: JSON is read when a command runs.
-/

namespace RecordStore

inductive Command
  | migrate
  | get (model : String) (id : Int64)
  | find (model field value : String)
  | list (model : String) (filter sort : Option String) (page pageSize : Option Nat)
  | create (model record : String)
  | update (model : String) (id : Int64) (changes : String)
  | upsert (model lookup defaults : String)
  | delete (model : String) (id : Int64)
  | importFile (model file : String)
  | updateMany (model filter changes : String)
  | deleteMany (model filter : String)
  | count (model : String) (filter : Option String)
  | exists (model : String) (filter : Option String)
deriving DecidableEq

/-- What a command line asks for: the settings file, whether the environment counts, and the
command. -/
structure CommandLine where
  config : String
  env : Bool
  command : Option Command
deriving DecidableEq

namespace CommandLine

def globalOptions : List OptionSpec :=
  [⟨"config", some 'c', .value .text, false⟩, ⟨"env", some 'e', .flag, false⟩,
    ⟨"help", some 'h', .help, false⟩]

def filterOption : OptionSpec := ⟨"filter", some 'f', .value .text, false⟩

def listOptions : List OptionSpec :=
  [filterOption, ⟨"sort", some 's', .value .text, true⟩, ⟨"page", some 'p', .value .count, false⟩,
    ⟨"page-size", none, .value .count, false⟩]

def commands : List (String × List OptionSpec × List (String × ValueKind)) :=
  [("migrate", [], []),
    ("get", [], [("model", .text), ("id", .id)]),
    ("find", [], [("model", .text), ("field", .text), ("value", .text)]),
    ("list", listOptions, [("model", .text)]),
    ("create", [], [("model", .text), ("record", .text)]),
    ("update", [], [("model", .text), ("id", .id), ("changes", .text)]),
    ("upsert", [⟨"defaults", some 'd', .value .text, false⟩],
      [("model", .text), ("lookup", .text)]),
    ("delete", [], [("model", .text), ("id", .id)]),
    ("import", [], [("model", .text), ("file", .text)]),
    ("update-many", [], [("model", .text), ("filter", .text), ("changes", .text)]),
    ("delete-many", [], [("model", .text), ("filter", .text)]),
    ("count", [filterOption], [("model", .text)]),
    ("exists", [filterOption], [("model", .text)])]

def helpName : String := "help"

def topGrammar : Grammar :=
  ⟨globalOptions ++ [⟨"version", some 'V', .version, false⟩], [],
    commands.map (·.1) ++ [helpName]⟩

def grammarOf (name : String) : Grammar :=
  match commands.find? (·.1 = name) with
  | some (_, options, positionals) => ⟨globalOptions ++ options, positionals, []⟩
  | none => ⟨globalOptions, [], []⟩

def text? (r : Reading) (name : String) : Option String :=
  match r.value? name with
  | some (.text s) => some s
  | _ => none

def count? (r : Reading) (name : String) : Option Nat :=
  match r.value? name with
  | some (.count n) => some n
  | _ => none

def text (r : Reading) (name : String) : Except UsageError String :=
  match text? r name with
  | some s => .ok s
  | none => .error .missingArgument

def id (r : Reading) (name : String) : Except UsageError Int64 :=
  match r.value? name with
  | some (.id n) => .ok n
  | _ => .error .missingArgument

/-- The command that the values read make up. A page and its size need each other. -/
def commandOf (name : String) (r : Reading) : Except UsageError Command := do
  match name with
  | "migrate" => .ok .migrate
  | "get" => .ok (.get (← text r "model") (← id r "id"))
  | "find" => .ok (.find (← text r "model") (← text r "field") (← text r "value"))
  | "list" =>
    let page := count? r "page"
    let pageSize := count? r "page-size"
    if page.isSome ≠ pageSize.isSome then .error .missingArgument
    else .ok (.list (← text r "model") (text? r "filter") (text? r "sort") page pageSize)
  | "create" => .ok (.create (← text r "model") (← text r "record"))
  | "update" => .ok (.update (← text r "model") (← id r "id") (← text r "changes"))
  | "upsert" =>
    .ok (.upsert (← text r "model") (← text r "lookup") ((text? r "defaults").getD "\x7b\x7d"))
  | "delete" => .ok (.delete (← text r "model") (← id r "id"))
  | "import" => .ok (.importFile (← text r "model") (← text r "file"))
  | "update-many" =>
    .ok (.updateMany (← text r "model") (← text r "filter") (← text r "changes"))
  | "delete-many" => .ok (.deleteMany (← text r "model") (← text r "filter"))
  | "count" => .ok (.count (← text r "model") (text? r "filter"))
  | "exists" => .ok (.exists (← text r "model") (text? r "filter"))
  | _ => .error .invalidSubcommand

/-- Reads the name of the command to show help for. -/
def showHelp : List String → UsageError
  | [] => .displayHelp
  | name :: rest =>
    if name ∈ topGrammar.subcommands ∧ rest = [] then .displayHelp else .invalidSubcommand

def readCommand (name : String) (arguments : List String) :
    Except UsageError (Reading × Command) := do
  let g := grammarOf name
  let (r, _) ← (Reading.start g).takeAll g arguments
  let r ← r.resolve
  .ok (r, ← commandOf name r)

/-- Reads the arguments of the program. A global option after the name of the command outdoes the
same option before it. -/
def ofArguments (arguments : List String) : Except UsageError CommandLine := do
  let (top, rest) ← (Reading.start topGrammar).takeAll topGrammar arguments
  match rest with
  | none =>
    let top ← top.resolve
    .ok ⟨(text? top "config").getD "", (top.value? "env").isSome, none⟩
  | some (name, arguments) =>
    if name = helpName then .error (showHelp arguments)
    else
      let (inner, command) ← readCommand name arguments
      let top ← top.resolve
      .ok ⟨((text? inner "config").or (text? top "config")).getD "",
        (inner.value? "env").isSome || (top.value? "env").isSome, some command⟩

end CommandLine

end RecordStore
