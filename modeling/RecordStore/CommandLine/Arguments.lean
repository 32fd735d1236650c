import RecordStore.Number.Basic

/-!
# Command-line arguments

A grammar lists the options, the positional values and the subcommands of a program. Arguments are
read from left to right. An option takes its value from the rest of the argument or from the next
one; after `--` every argument is positional. The value that was read last is checked when the next
one begins, or at the end.
-/

namespace RecordStore

inductive UsageError
  | invalidValue
  | argumentConflict
  | invalidSubcommand
  | missingArgument
  | valueValidation
  | unknownArgument
  | tooManyValues
  | displayHelp
  | displayVersion
deriving DecidableEq

inductive ValueKind
  | text
  | id
  | count
deriving DecidableEq

inductive ArgumentValue
  | flag
  | text (s : String)
  | id (n : Int64)
  | count (n : Nat)
deriving DecidableEq

inductive Effect
  | value (kind : ValueKind)
  | flag
  | help
  | version
deriving DecidableEq

structure OptionSpec where
  long : String
  short : Option Char
  effect : Effect
  /-- Whether the next argument is its value even if it starts with a hyphen. -/
  takesHyphens : Bool
deriving DecidableEq

/-- What the arguments of a program or of a subcommand may be. -/
structure Grammar where
  options : List OptionSpec
  positionals : List (String × ValueKind)
  subcommands : List String
deriving DecidableEq

def ValueKind.read (kind : ValueKind) (text : String) : Except UsageError ArgumentValue :=
  match kind, integerOfText? text.toList with
  | .text, _ => .ok (.text text)
  | .id, some n =>
    if FitsInt64 n then .ok (.id (Int64.ofInt n)) else .error .valueValidation
  | .count, some n =>
    if "-".toList.isPrefixOf text.toList ∨ maxWord < n then .error .valueValidation
    else .ok (.count n.toNat)
  | _, none => .error .valueValidation

/-- A value that is being read: its name, its kind, and its text once that is known. -/
structure PendingValue where
  name : String
  kind : ValueKind
  text : Option String
deriving DecidableEq

/-- How far the reading has come. -/
structure Reading where
  found : List (String × ArgumentValue)
  pending : Option PendingValue
  /-- The option whose value the next argument is. -/
  awaiting : Option OptionSpec
  positionals : List (String × ValueKind)
  /-- Whether `--` was read. -/
  trailing : Bool
deriving DecidableEq

namespace Reading

def start (g : Grammar) : Reading := ⟨[], none, none, g.positionals, false⟩

def value? (r : Reading) (name : String) : Option ArgumentValue :=
  (r.found.find? (·.1 = name)).map (·.2)

/-- Adds a value. No name may have two. -/
def add (r : Reading) (name : String) (value : ArgumentValue) : Except UsageError Reading :=
  if (r.value? name).isSome then .error .argumentConflict
  else .ok { r with found := r.found ++ [(name, value)] }

/-- Checks a value and adds it. -/
def settle (r : Reading) (p : PendingValue) : Except UsageError Reading :=
  match p.text with
  | none => .error .invalidValue
  | some text =>
    if (r.value? p.name).isSome then .error .argumentConflict
    else do r.add p.name (← p.kind.read text)

def resolve (r : Reading) : Except UsageError Reading :=
  match r.pending with
  | none => .ok r
  | some p => { r with pending := none, awaiting := none }.settle p

def takeOption (r : Reading) (o : OptionSpec) (attached : Option String) :
    Except UsageError Reading :=
  match o.effect, attached with
  | .value kind, some text => do (← r.resolve).settle ⟨o.long, kind, some text⟩
  | .value kind, none => do
    .ok { (← r.resolve) with pending := some ⟨o.long, kind, none⟩, awaiting := some o }
  | _, some _ => .error .tooManyValues
  | .flag, none => do (← r.resolve).add o.long .flag
  | .help, none => do
    let _ ← r.resolve
    .error .displayHelp
  | .version, none => do
    let _ ← r.resolve
    .error .displayVersion

/-- Reads an argument of a hyphen and letters. The letters after an option that takes a value are
its value, with or without an equals sign. -/
def takeLetters (g : Grammar) (r : Reading) : List Char → Except UsageError Reading
  | [] => .ok r
  | c :: rest =>
    match g.options.find? (·.short = some c) with
    | none => .error .unknownArgument
    | some o =>
      match o.effect, rest with
      | .value _, [] => r.takeOption o none
      | .value _, '=' :: text => r.takeOption o (some (String.ofList text))
      | .value _, text => r.takeOption o (some (String.ofList text))
      | _, rest => do takeLetters g (← r.takeOption o none) rest

/-- Reads an argument of two hyphens and a name, with a value after an equals sign if there is
one. -/
def takeLong (g : Grammar) (r : Reading) (text : List Char) : Except UsageError Reading :=
  let name := String.ofList (text.takeWhile (· ≠ '='))
  let attached := match text.dropWhile (· ≠ '=') with
    | '=' :: value => some (String.ofList value)
    | _ => none
  match g.options.find? (·.long = name) with
  | none => .error .unknownArgument
  | some o => r.takeOption o attached

def takeAwaited (r : Reading) (o : OptionSpec) (text : String) : Reading :=
  match o.effect with
  | .value kind => { r with pending := some ⟨o.long, kind, some text⟩, awaiting := none }
  | _ => { r with awaiting := none }

def takePositional (g : Grammar) (r : Reading) (text : String) : Except UsageError Reading :=
  match r.positionals with
  | (name, kind) :: rest => do
    .ok { (← r.resolve) with pending := some ⟨name, kind, some text⟩, positionals := rest }
  | [] =>
    if g.subcommands = [] ∨ r.trailing ∧ text ∈ g.subcommands then .error .unknownArgument
    else .error .invalidSubcommand

def takePlain (g : Grammar) (r : Reading) (text : String) : Except UsageError Reading :=
  match r.awaiting with
  | some o => .ok (r.takeAwaited o text)
  | none => r.takePositional g text

def takeArgument (g : Grammar) (r : Reading) (text : String) : Except UsageError Reading :=
  if r.awaiting.any (·.takesHyphens) then r.takePlain g text
  else match text.toList with
    | ['-', '-'] => .ok { r with trailing := true }
    | '-' :: '-' :: rest => r.takeLong g rest
    | '-' :: c :: rest => r.takeLetters g (c :: rest)
    | _ => r.takePlain g text

/-- Reads arguments up to the name of a subcommand, which is given back with the arguments after
it. -/
def takeAll (g : Grammar) (r : Reading) :
    List String → Except UsageError (Reading × Option (String × List String))
  | [] => .ok (r, none)
  | text :: rest =>
    if r.trailing then do takeAll g (← r.takePositional g text) rest
    else if r.awaiting = none ∧ text ∈ g.subcommands then .ok (r, some (text, rest))
    else do takeAll g (← r.takeArgument g text) rest

end Reading

end RecordStore
