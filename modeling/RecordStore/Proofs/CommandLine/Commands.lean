import RecordStore.CommandLine.Command
import RecordStore.Proofs.CommandLine.Arguments
import RecordStore.Proofs.Json.Proper
import RecordStore.Proofs.Database.Names

/-!
# Commands as arguments

Every command can be written on the command line, whatever its texts are, and is read back exactly:
options have their values attached and positional values stand behind `--`. The `--` may be left out
where no positional value starts with a hyphen, which leaves out the negative keys.
-/

namespace RecordStore

/-- An option that is given only if it has a value. -/
def givenOption (name : String) (value : Option ArgumentValue) : List (String × ArgumentValue) :=
  value.toList.map fun value => (name, value)

namespace Command

def name : Command → String
  | .migrate => "migrate"
  | .get .. => "get"
  | .find .. => "find"
  | .list .. => "list"
  | .create .. => "create"
  | .update .. => "update"
  | .upsert .. => "upsert"
  | .delete .. => "delete"
  | .importFile .. => "import"
  | .updateMany .. => "update-many"
  | .deleteMany .. => "delete-many"
  | .count .. => "count"
  | .exists .. => "exists"

/-- The options that a command is given. -/
def options : Command → List (String × ArgumentValue)
  | .list _ filter sort page pageSize =>
    givenOption "filter" (filter.map .text) ++ givenOption "sort" (sort.map .text) ++
      givenOption "page" (page.map .count) ++ givenOption "page-size" (pageSize.map .count)
  | .upsert _ _ defaults => [("defaults", .text defaults)]
  | .count _ filter | .exists _ filter => givenOption "filter" (filter.map .text)
  | _ => []

/-- The positional values of a command, in the order of their declaration. -/
def positionals : Command → List (String × ArgumentValue)
  | .migrate => []
  | .get model id | .delete model id => [("model", .text model), ("id", .id id)]
  | .find model field value => [("model", .text model), ("field", .text field), ("value", .text value)]
  | .list model .. | .count model _ | .exists model _ => [("model", .text model)]
  | .create model record => [("model", .text model), ("record", .text record)]
  | .update model id changes => [("model", .text model), ("id", .id id), ("changes", .text changes)]
  | .upsert model lookup _ => [("model", .text model), ("lookup", .text lookup)]
  | .importFile model file => [("model", .text model), ("file", .text file)]
  | .updateMany model filter changes =>
    [("model", .text model), ("filter", .text filter), ("changes", .text changes)]
  | .deleteMany model filter => [("model", .text model), ("filter", .text filter)]

/-- A page comes with its size, and both are words. -/
def Complete : Command → Prop
  | .list _ _ _ page pageSize =>
    page.isSome = pageSize.isSome ∧ (∀ n ∈ page, n ≤ maxWord) ∧ ∀ n ∈ pageSize, n ≤ maxWord
  | _ => True

/-! ## The values of a command -/

/-- The value that a command has under a name. -/
def value? (c : Command) (name : String) : Option ArgumentValue :=
  ((c.options ++ c.positionals).find? (·.1 = name)).map (·.2)

variable {c : Command} {name key : String} {value : Option ArgumentValue} {r : Reading}

theorem mem_givenOption {v : String × ArgumentValue} :
    v ∈ givenOption name value ↔ v.1 = name ∧ v.2 ∈ value := by
  obtain ⟨given, inner⟩ := v
  cases value with
  | none => simp [givenOption]
  | some value => simp [givenOption, eq_comm]

theorem find?_givenOption : (givenOption name value).find? (·.1 = key) =
    if name = key then value.map fun v => (name, v) else none := by
  cases value with
  | none => simp [givenOption]
  | some value => by_cases h : name = key <;> simp [givenOption, h]

/-- Every option of a command is one of its subcommand, and takes the value. -/
theorem offers_options (hc : c.Complete) :
    ∀ v ∈ c.options, (CommandLine.grammarOf c.name).Offers v.1 v.2 := by
  rintro ⟨name, value⟩ hv
  change (CommandLine.grammarOf c.name).Offers name value
  cases c with
  | list model filter sort page pageSize =>
    simp only [options, List.mem_append, mem_givenOption, Option.mem_def, Option.map_eq_some_iff] at hv
    rcases hv with ((⟨rfl, s, _, rfl⟩ | ⟨rfl, s, _, rfl⟩) | ⟨rfl, n, hn, rfl⟩) | ⟨rfl, n, hn, rfl⟩
    · exact ⟨by decide, _, rfl, .value (.text s)⟩
    · exact ⟨by decide, _, rfl, .value (.text s)⟩
    · exact ⟨by decide, _, rfl, .value (.count (hc.2.1 n hn))⟩
    · exact ⟨by decide, _, rfl, .value (.count (hc.2.2 n hn))⟩
  | upsert model lookup defaults =>
    obtain ⟨rfl, rfl⟩ := Prod.mk.inj (List.mem_singleton.mp hv)
    exact ⟨by decide, _, rfl, .value (.text defaults)⟩
  | count model filter | «exists» model filter =>
    simp only [options, mem_givenOption, Option.mem_def, Option.map_eq_some_iff] at hv
    obtain ⟨rfl, s, _, rfl⟩ := hv
    exact ⟨by decide, _, rfl, .value (.text s)⟩
  | _ => cases hv

/-- The positional values of a command are those of its subcommand, in order. -/
theorem takes_positionals (c : Command) :
    List.Forall₂ (fun p v => p.1 = v.1 ∧ p.2.Takes v.2) (CommandLine.grammarOf c.name).positionals
      c.positionals := by
  cases c <;> simp [CommandLine.grammarOf, Command.name, CommandLine.commands, positionals,
    ValueKind.Takes.text, ValueKind.Takes.id]

/-- The values of a command have different names, and none goes by that of an option of the
program. -/
theorem names_sublist (c : Command) : ∃ names : List String,
    (names.Nodup ∧ "config" ∉ names ∧ "env" ∉ names) ∧
      ((c.options ++ c.positionals).map (·.1)).Sublist names := by
  have hgiven (name : String) (value : Option ArgumentValue) :
      ((givenOption name value).map (·.1)).Sublist [name] := by
    cases value with
    | none => exact List.nil_sublist _
    | some value => exact List.Sublist.refl _
  cases c with
  | list model filter sort page pageSize =>
    refine ⟨["filter"] ++ ["sort"] ++ ["page"] ++ ["page-size"] ++ ["model"], by decide, ?_⟩
    simp only [options, positionals, List.map_append]
    exact ((((hgiven _ _).append (hgiven _ _)).append (hgiven _ _)).append (hgiven _ _)).append
      (List.Sublist.refl _)
  | count model filter | «exists» model filter =>
    refine ⟨["filter"] ++ ["model"], by decide, ?_⟩
    rw [List.map_append]
    exact (hgiven _ _).append (List.Sublist.refl _)
  | _ => exact ⟨_, by simp [options, positionals], List.Sublist.refl _⟩

theorem distinct_values (c : Command) :
    (c.options ++ c.positionals).Pairwise fun a b => a.1 ≠ b.1 := by
  obtain ⟨names, ⟨hnodup, _, _⟩, hsublist⟩ := c.names_sublist
  exact List.pairwise_map.mp (hnodup.sublist hsublist)

theorem local_values (c : Command) :
    ∀ v ∈ c.options ++ c.positionals, v.1 ≠ "config" ∧ v.1 ≠ "env" := by
  obtain ⟨names, ⟨_, hconfig, henv⟩, hsublist⟩ := c.names_sublist
  intro v hv
  have hname : v.1 ∈ names := hsublist.subset (List.mem_map_of_mem hv)
  exact ⟨fun heq => hconfig (heq ▸ hname), fun heq => henv (heq ▸ hname)⟩

/-! ## Making a command of its values -/

theorem text?_of_value {text : Option String} (h : r.value? key = text.map .text) :
    CommandLine.text? r key = text := by
  rw [CommandLine.text?, h]
  cases text <;> rfl

theorem count?_of_value {n : Option Nat} (h : r.value? key = n.map .count) :
    CommandLine.count? r key = n := by
  rw [CommandLine.count?, h]
  cases n <;> rfl

/-- A command is made of its values. -/
theorem commandOf_values (hr : ∀ key, r.value? key = c.value? key) (hc : c.Complete) :
    CommandLine.commandOf c.name r = .ok c := by
  cases c with
  | list model filter sort page pageSize =>
    have hpages : page.isSome = pageSize.isSome := hc.1
    have hmodel : CommandLine.text? r "model" = some model :=
      text?_of_value ((hr _).trans (by simp [value?, options, positionals, find?_givenOption]))
    have hfilter : CommandLine.text? r "filter" = filter := text?_of_value ((hr _).trans (by
      simp [value?, options, positionals, find?_givenOption, Function.comp_def]))
    have hsort : CommandLine.text? r "sort" = sort := text?_of_value ((hr _).trans (by
      simp [value?, options, positionals, find?_givenOption, Function.comp_def]))
    have hpage : CommandLine.count? r "page" = page := count?_of_value ((hr _).trans (by
      simp [value?, options, positionals, find?_givenOption, Function.comp_def]))
    have hsize : CommandLine.count? r "page-size" = pageSize := count?_of_value ((hr _).trans (by
      simp [value?, options, positionals, find?_givenOption, Function.comp_def]))
    simp [CommandLine.commandOf, Command.name, CommandLine.text, hmodel, hfilter, hsort, hpage,
      hsize, hpages, ok_bind]
  | count model filter | «exists» model filter =>
    have hmodel : CommandLine.text? r "model" = some model :=
      text?_of_value ((hr _).trans (by simp [value?, options, positionals, find?_givenOption]))
    have hfilter : CommandLine.text? r "filter" = filter := text?_of_value ((hr _).trans (by
      simp [value?, options, positionals, find?_givenOption, Function.comp_def]))
    simp [CommandLine.commandOf, Command.name, CommandLine.text, hmodel, hfilter, ok_bind]
  | _ =>
    simp [CommandLine.commandOf, Command.name, CommandLine.text, CommandLine.text?, CommandLine.id,
      hr, value?, options, positionals, ok_bind]

/-- The options of a command in some order, of which the defaults of an upsert may be left out if
they are empty. -/
inductive Gives : Command → List (String × ArgumentValue) → Prop
  | options {c : Command} {given : List (String × ArgumentValue)} (h : given.Perm c.options) :
    Gives c given
  | noDefaults (model lookup : String) : Gives (.upsert model lookup "\x7b\x7d") []

variable {given : List (String × ArgumentValue)}

theorem Gives.mem (h : c.Gives given) : ∀ v ∈ given, v ∈ c.options := by
  cases h with
  | options h => exact fun v hv => h.mem_iff.mp hv
  | noDefaults => exact fun v hv => absurd hv List.not_mem_nil

theorem Gives.distinct (h : c.Gives given) :
    (given ++ c.positionals).Pairwise fun a b => a.1 ≠ b.1 := by
  cases h with
  | options h =>
    exact ((h.append_right _).pairwise_iff fun hab => hab.symm).mpr (distinct_values c)
  | noDefaults model lookup => simp [positionals]

theorem commandOf_given (h : c.Gives given) (hc : c.Complete)
    (hr : r.found = given ++ c.positionals) : CommandLine.commandOf c.name r = .ok c := by
  cases h with
  | options h =>
    refine commandOf_values (fun key => ?_) hc
    have hfind : r.found.find? (·.1 = key) = (c.options ++ c.positionals).find? (·.1 = key) := by
      refine find?_perm (hr ▸ h.append_right _) ((distinct_values c).imp fun hab => ?_)
      simpa using fun ha hb => hab (ha.trans hb.symm)
    rw [Reading.value?, hfind, value?]
  | noDefaults model lookup =>
    simp [CommandLine.commandOf, Command.name, CommandLine.text, CommandLine.text?, Reading.value?,
      hr, positionals, ok_bind]

end Command

namespace CommandLine

variable {c : Command} {given : List (String × ArgumentValue)} {r : Reading} {config : String}
variable {env : Bool} {name : String} {arguments : List String}

/-! ## The arguments of a command line -/

/-- The options in front of a subcommand. -/
def globalValues (config : String) (env : Bool) : List (String × ArgumentValue) :=
  (if config = "" then [] else [("config", .text config)]) ++ if env then [("env", .flag)] else []

def optionArguments (options : List (String × ArgumentValue)) : List String :=
  options.map fun v => v.2.writtenOption v.1

/-- What follows the name of a subcommand: its options, and the positional values behind `--`, if
there are any. -/
def innerArguments (c : Command) (given : List (String × ArgumentValue)) : List String :=
  optionArguments given ++
    if c.positionals = [] then [] else "--" :: c.positionals.map fun v => v.2.written

/-- The arguments that ask for a command with settings from a file, the environment or neither. -/
def argumentsOf (config : String) (env : Bool) (c : Command)
    (given : List (String × ArgumentValue)) : List String :=
  optionArguments (globalValues config env) ++ c.name :: innerArguments c given

/-! ## Reading a command -/

theorem mem_subcommands (c : Command) : c.name ∈ topGrammar.subcommands ∧ c.name ≠ helpName := by
  cases c <;> exact ⟨by simp [topGrammar, commands, Command.name], by simp [Command.name, helpName]⟩

theorem subcommands_grammarOf (name : String) : (grammarOf name).subcommands = [] := by
  unfold grammarOf
  split <;> rfl

theorem readCommand_of_holds {found : List (String × ArgumentValue)}
    (hread : (Reading.start (grammarOf name)).takeAll (grammarOf name) arguments = .ok (r, none))
    (hr : r.Holds found) (hcommand : ∀ r : Reading, r.found = found → commandOf name r = .ok c) :
    ∃ r' : Reading, r'.found = found ∧ readCommand name arguments = .ok (r', c) := by
  let r' : Reading := { r with found := found, pending := none }
  have hmade : commandOf name r' = .ok c := hcommand r' rfl
  refine ⟨r', rfl, ?_⟩
  simp only [readCommand, hread, ok_bind, hr.resolve]
  rw [hmade, ok_bind]

/-- The arguments behind the name of a subcommand are read as the command. -/
theorem readCommand_inner (hc : c.Complete) (h : c.Gives given) :
    ∃ r : Reading, r.found = given ++ c.positionals ∧
      readCommand c.name (innerArguments c given) = .ok (r, c) := by
  have hsubcommands := subcommands_grammarOf c.name
  have hoptions : ∀ rest, (Reading.start (grammarOf c.name)).takeAll (grammarOf c.name)
      (optionArguments given ++ rest) = Reading.takeAll (grammarOf c.name)
        { Reading.start (grammarOf c.name) with found := given } rest :=
    Reading.takeAll_options rfl rfl rfl (by simp [hsubcommands])
      (List.pairwise_append.mp h.distinct).1 fun v hv => Command.offers_options hc v (h.mem v hv)
  suffices hread : ∃ r : Reading, (Reading.start (grammarOf c.name)).takeAll (grammarOf c.name)
      (innerArguments c given) = .ok (r, none) ∧ r.Holds (given ++ c.positionals) by
    obtain ⟨r, hread, hholds⟩ := hread
    exact readCommand_of_holds hread hholds fun r hr => Command.commandOf_given h hc hr
  rw [innerArguments, hoptions]
  by_cases hpositionals : c.positionals = []
  · rw [if_pos hpositionals, hpositionals, List.append_nil]
    exact ⟨_, rfl, Reading.holds_of_idle rfl rfl⟩
  · rw [if_neg hpositionals, Reading.takeAll_trailing rfl rfl (by simp [hsubcommands])]
    exact Reading.Holds.takeAll_positionals (Reading.holds_of_idle rfl rfl) hsubcommands
      (Command.takes_positionals c) h.distinct (.inl rfl)

/-! ## Reading a command line -/

/-- What stands in front of the name of a subcommand is read as the options of the program. -/
theorem takeAll_globalValues (h : name ∈ topGrammar.subcommands) (config : String) (env : Bool)
    (arguments : List String) : (Reading.start topGrammar).takeAll topGrammar
      (optionArguments (globalValues config env) ++ name :: arguments) =
        .ok ({ Reading.start topGrammar with found := globalValues config env },
          some (name, arguments)) := by
  have hsubcommands : ∀ s ∈ topGrammar.subcommands, s.toList.head? ≠ some '-' := by decide
  have hdistinct : (globalValues config env).Pairwise fun a b => a.1 ≠ b.1 := by
    unfold globalValues
    split <;> split <;> simp
  have hoffers : ∀ v ∈ globalValues config env, topGrammar.Offers v.1 v.2 := by
    rintro ⟨key, value⟩ hv
    change topGrammar.Offers key value
    rcases List.mem_append.mp hv with hv | hv
    · split at hv
      · cases hv
      · obtain ⟨rfl, rfl⟩ := Prod.mk.inj (List.mem_singleton.mp hv)
        exact ⟨by decide, _, rfl, .value (.text config)⟩
    · split at hv
      · obtain ⟨rfl, rfl⟩ := Prod.mk.inj (List.mem_singleton.mp hv)
        exact ⟨by decide, _, rfl, .flag⟩
      · cases hv
  rw [optionArguments, Reading.takeAll_options rfl rfl rfl hsubcommands hdistinct hoffers]
  exact Reading.takeAll_subcommand rfl rfl h arguments

/-- The settings are those in front of the name of the subcommand, if there are none behind it. -/
theorem ofArguments_of_readCommand (hread : readCommand c.name arguments = .ok (r, c))
    (hr : r.value? "config" = none ∧ r.value? "env" = none) (config : String) (env : Bool) :
    ofArguments (optionArguments (globalValues config env) ++ c.name :: arguments) =
      .ok ⟨config, env, some c⟩ := by
  obtain ⟨hmem, hhelp⟩ := mem_subcommands c
  let top : Reading := { Reading.start topGrammar with found := globalValues config env }
  have hresolve : top.resolve = .ok top := rfl
  have hinner : text? r "config" = none := by rw [text?, hr.1]
  have hconfig : (text? top "config").getD "" = config := by
    by_cases hempty : config = "" <;> cases env <;>
      simp [text?, Reading.value?, top, globalValues, hempty]
  have henv : (top.value? "env").isSome = env := by
    by_cases hempty : config = "" <;> cases env <;> simp [Reading.value?, top, globalValues, hempty]
  simp only [ofArguments, takeAll_globalValues hmem, ok_bind, if_neg hhelp, hread]
  change (do let top ← top.resolve; _) = _
  rw [hresolve, ok_bind, hinner, Option.none_or, hconfig, hr.2, henv]
  rfl

/-- What is wrong with the arguments behind the name of a subcommand is wrong with all of them. -/
theorem ofArguments_of_readCommand_error {e : UsageError}
    (hread : readCommand c.name arguments = .error e) :
    ofArguments (c.name :: arguments) = .error e := by
  obtain ⟨hmem, hhelp⟩ := mem_subcommands c
  have htop := takeAll_globalValues hmem "" false arguments
  change ofArguments (optionArguments (globalValues "" false) ++ c.name :: arguments) = _
  simp only [ofArguments, htop, ok_bind, if_neg hhelp, hread, error_bind]

/-- A list never has a page without its size or a size without its page. -/
theorem pages_of_commandOf {model : String} {filter sort : Option String} {page pageSize : Option Nat}
    (h : commandOf name r = .ok (.list model filter sort page pageSize)) :
    page.isSome = pageSize.isSome := by
  unfold commandOf at h
  split at h
  case h_4 =>
    simp only at h
    split at h
    · cases h
    next hpages =>
      obtain ⟨_, _, hmade⟩ := bind_eq_ok.mp h
      cases hmade
      exact not_not.mp hpages
  all_goals simp [bind_eq_ok] at h

theorem commandOf_of_ofArguments {line : CommandLine}
    (h : ofArguments arguments = .ok line) (hc : line.command = some c) :
    ∃ name r, commandOf name r = .ok c := by
  simp only [ofArguments, bind_eq_ok] at h
  obtain ⟨⟨top, rest⟩, _, h⟩ := h
  cases rest with
  | none =>
    obtain ⟨_, _, h⟩ := bind_eq_ok.mp h
    cases h
    cases hc
  | some found =>
    obtain ⟨name, inner⟩ := found
    simp only at h
    split at h
    · cases h
    · obtain ⟨⟨r, made⟩, hread, h⟩ := bind_eq_ok.mp h
      obtain ⟨_, _, h⟩ := bind_eq_ok.mp h
      cases h
      cases hc
      simp only [readCommand, bind_eq_ok] at hread
      obtain ⟨_, _, r', _, _, hmade, heq⟩ := hread
      cases heq
      exact ⟨name, _, hmade⟩

/-- Every command is read back from the arguments in which it is written, with the settings that it
asks for, and no arguments ask for a list with only a page or only its size. -/
theorem commands_read_back :
    (∀ (config : String) (env : Bool) (c : Command) (given : List (String × ArgumentValue)),
      c.Complete → c.Gives given →
        ofArguments (argumentsOf config env c given) = .ok ⟨config, env, some c⟩) ∧
    ∀ arguments config env model filter sort page pageSize,
      ofArguments arguments = .ok ⟨config, env, some (.list model filter sort page pageSize)⟩ →
        page.isSome = pageSize.isSome := by
  constructor
  · intro config env c given hc h
    obtain ⟨r, hfound, hread⟩ := readCommand_inner hc h
    have hlocal {key : String} (hkey : ∀ v ∈ c.options ++ c.positionals, v.1 ≠ key) :
        r.value? key = none := by
      refine Reading.value?_of_new fun v hv => hkey v ?_
      rw [hfound] at hv
      exact List.mem_append.mpr ((List.mem_append.mp hv).imp_left (h.mem v))
    have hnone : r.value? "config" = none ∧ r.value? "env" = none :=
      ⟨hlocal fun v hv => (c.local_values v hv).1, hlocal fun v hv => (c.local_values v hv).2⟩
    exact ofArguments_of_readCommand hread hnone config env
  · intro arguments config env model filter sort page pageSize h
    obtain ⟨name, r, hmade⟩ := commandOf_of_ofArguments h rfl
    exact pages_of_commandOf hmade

/-- A list whose texts look like options, and the smallest key of a model called help. -/
theorem odd_texts_read_back :
    ofArguments ["--config=--env", "--env", "list", "--sort=-age", "--filter=", "--page-size=0",
      "--page=18446744073709551615", "--", "--"] =
        .ok ⟨"--env", true, some (.list "--" (some "") (some "-age") (some maxWord) (some 0))⟩ ∧
    ofArguments ["get", "--", "help", "-9223372036854775808"] =
      .ok ⟨"", false, some (.get "help" Int64.minValue)⟩ := by
  have hlist := commands_read_back.1 "--env" true
    (.list "--" (some "") (some "-age") (some maxWord) (some 0))
    [("sort", .text "-age"), ("filter", .text ""), ("page-size", .count 0), ("page", .count maxWord)]
    ⟨rfl, by simp, by simp⟩ (.options (by decide))
  have hget := commands_read_back.1 "" false (.get "help" Int64.minValue) [] trivial
    (.options (List.Perm.refl _))
  exact ⟨hlist, hget⟩

/-! ## Without `--` -/

/-- A command without options is read from its positional values alone, if none of them starts with a
hyphen. -/
theorem readCommand_plain (hc : c.Complete) (h : c.Gives [])
    (hplain : ∀ v ∈ c.positionals, v.2.written.toList.head? ≠ some '-') :
    ∃ r : Reading, r.found = c.positionals ∧
      readCommand c.name (c.positionals.map fun v => v.2.written) = .ok (r, c) := by
  obtain ⟨r, hread, hholds⟩ := Reading.Holds.takeAll_positionals
    (Reading.holds_of_idle (r := Reading.start (grammarOf c.name)) rfl rfl)
    (subcommands_grammarOf c.name) (Command.takes_positionals c) h.distinct (.inr hplain)
  exact readCommand_of_holds hread hholds fun r hr => Command.commandOf_given h hc hr

/-- A key that is negative is refused where it stands without `--`. -/
theorem readCommand_negative {model : String} (hmodel : model.toList.head? ≠ some '-') {id : Int64}
    (hid : id.toInt < 0) {positionals : List (String × ValueKind)}
    (hgrammar : grammarOf name = ⟨globalOptions, ("model", .text) :: positionals, []⟩)
    (rest : List String) :
    readCommand name (model :: toString id :: rest) = .error .unknownArgument := by
  have hshort : ∀ o ∈ globalOptions, ∀ c ∈ o.short, c.isDigit = false := by
    simp [globalOptions]
  let g : Grammar := ⟨globalOptions, ("model", .text) :: positionals, []⟩
  have hstart : (Reading.start g).Holds [] := Reading.holds_of_idle rfl rfl
  obtain ⟨r, hread, hholds, _, htrailing⟩ := hstart.takePositional (g := g) rfl (by simp)
    (ValueKind.Takes.text model)
  have hkey : r.takeArgument g (toString id) = .error .unknownArgument :=
    Reading.takeArgument_negative hholds.awaiting hshort hid
  have hrun : (Reading.start g).takeAll g (model :: toString id :: rest) =
      .error .unknownArgument := by
    rw [Reading.takeAll_argument rfl List.not_mem_nil, Reading.takeArgument_plain rfl hmodel]
    change (do
      (← (Reading.start g).takePositional g (ArgumentValue.text model).written).takeAll g _) = _
    rw [hread, ok_bind, Reading.takeAll_argument htrailing List.not_mem_nil, hkey, error_bind]
  rw [readCommand, hgrammar, hrun, error_bind]

/-- A key is read without `--` exactly if it is not negative. -/
theorem keys_without_marker {model changes : String} {record : List (String × Json)}
    (hmodel : model.toList.head? ≠ some '-') (hchanges : Json.read changes = .ok (.object record))
    (id : Int64) :
    (0 ≤ id.toInt →
      ofArguments ["get", model, toString id] = .ok ⟨"", false, some (.get model id)⟩ ∧
      ofArguments ["delete", model, toString id] = .ok ⟨"", false, some (.delete model id)⟩ ∧
      ofArguments ["update", model, toString id, changes] =
        .ok ⟨"", false, some (.update model id changes)⟩) ∧
    (id.toInt < 0 →
      ofArguments ["get", model, toString id] = .error .unknownArgument ∧
      ofArguments ["delete", model, toString id] = .error .unknownArgument ∧
      ofArguments ["update", model, toString id, changes] = .error .unknownArgument) := by
  constructor
  · intro hid
    have hkey : ¬ (toString id).toList.head? = some '-' := fun hhead =>
      absurd ((head?_toString id.toInt).mp hhead) (by omega)
    have hread {c : Command} (hc : c.Complete) (hoptions : c.options = [])
        (hplain : ∀ v ∈ c.positionals, v.2.written.toList.head? ≠ some '-') :
        ofArguments (c.name :: c.positionals.map fun v => v.2.written) = .ok ⟨"", false, some c⟩ := by
      obtain ⟨r, hfound, hread⟩ := readCommand_plain hc (.options (hoptions ▸ List.Perm.refl _)) hplain
      have hlocal := c.local_values
      rw [hoptions, List.nil_append, ← hfound] at hlocal
      exact ofArguments_of_readCommand hread ⟨Reading.value?_of_new fun v hv => (hlocal v hv).1,
        Reading.value?_of_new fun v hv => (hlocal v hv).2⟩ "" false
    have hplain : ∀ v ∈ [("model", ArgumentValue.text model), ("id", .id id)],
        v.2.written.toList.head? ≠ some '-' := by
      simpa [ArgumentValue.written] using ⟨hmodel, hkey⟩
    refine ⟨hread (c := .get model id) trivial rfl hplain,
      hread (c := .delete model id) trivial rfl hplain,
      hread (c := .update model id changes) trivial rfl ?_⟩
    simpa [Command.positionals, ArgumentValue.written] using ⟨hmodel, hkey, Json.head?_of_read hchanges⟩
  · intro hid
    refine ⟨ofArguments_of_readCommand_error (c := .get model id) ?_,
      ofArguments_of_readCommand_error (c := .delete model id) ?_,
      ofArguments_of_readCommand_error (c := .update model id changes) ?_⟩ <;>
    exact readCommand_negative hmodel hid rfl _

/-- The first key is read and the one below zero is not. -/
theorem keys_around_zero :
    ofArguments ["update", "Book", "1", "\x7b\"pages\":2\x7d"] =
      .ok ⟨"", false, some (.update "Book" 1 "\x7b\"pages\":2\x7d")⟩ ∧
    ofArguments ["get", "Book", "-1"] = .error .unknownArgument := by
  have hmodel : "Book".toList.head? ≠ some '-' := by decide
  have hchanges : Json.read "\x7b\"pages\":2\x7d" = .ok (.object [("pages", .ofInt64 2)]) :=
    @Json.read_text (.object [("pages", .ofInt64 2)]) (by decide)
  have hfirst := keys_without_marker hmodel hchanges 1
  have hbelow := keys_without_marker hmodel hchanges (-1)
  exact ⟨(hfirst.1 (by decide)).2.2, (hbelow.2 (by decide)).1⟩

end CommandLine

end RecordStore
