import RecordStore.Proofs.Settings.Variables

/-!
# The layers of the settings

Each text of the settings is that of its variable, if variables count and it is set, or else that of
the file, or else the default, whichever of the tables around it the file has. The models are those
of the file.
-/

namespace RecordStore

namespace Setting

/-! ## What a file says -/

section
variable (file value : Setting)

/-- The member of a value under a key, where its members have the given names. -/
def part? (names : List String) (key : String) : Option Setting :=
  (value.definition? names).bind (member? · key)

def databasePart? (key : String) : Option Setting := value.part? ["uri", "database", "models"] key

def programPart? (key : String) : Option Setting :=
  (member? file.members "eazyapi").bind (·.part? ["database", "log_level"] key)

def filedLogLevel? : Option Setting := file.programPart? "log_level"

def filedUri? : Option Setting := (file.programPart? "database").bind (·.databasePart? "uri")

/-- The name of the database, under either of its keys. -/
def filedName? : Option Setting :=
  (file.programPart? "database").bind fun database =>
    (database.databasePart? "database").or (database.databasePart? "name")

def filedModels? : Option Setting := (file.programPart? "database").bind (·.databasePart? "models")

end

/-! ## Layers -/

/-- A text of the settings comes from its variable, or from the file where the variable is not set,
or is the default where the file does not have it either. -/
inductive Layered (given : Option String) (filed : Option Setting) (default : String) :
    String → Prop
  | variable {text : String} (h : given = some text) : Layered given filed default text
  | file {value : Setting} {text : String} (hgiven : given = none) (hfiled : filed = some value)
      (htext : value.toText? = some text) : Layered given filed default text
  | default (hgiven : given = none) (hfiled : filed = none) : Layered given filed default default

/-- The models are those of the file in order, or none. -/
inductive FiledModels : Option Setting → List Model → Prop
  | missing : FiledModels none []
  | items {items : List Setting} {models : List Model}
      (h : List.Forall₂ (fun item m => model? item = some m) items models) :
      FiledModels (some (.array items)) models

variable {given : Option String} {filed : Option Setting} {default text : String}

theorem Layered.overlaid (h : Layered none filed default text) (given : Option String) :
    Layered given filed default (given.getD text) := by
  cases given with
  | some value => exact .variable rfl
  | none => exact h

theorem layered_of_optional? {members : List (String × Setting)} {key : String}
    (h : optional? members key default toText? = some text) :
    Layered none (member? members key) default text := by
  unfold optional? at h
  split at h
  next hnone =>
    cases h
    exact .default rfl hnone
  next value hsome => exact .file rfl hsome h

theorem layered_of_databaseName? {members : List (String × Setting)}
    (h : databaseName? members default = some text) :
    Layered none ((member? members "database").or (member? members "name")) default text := by
  unfold databaseName? at h
  split at h
  next hdatabase hname =>
    cases h
    exact .default rfl (by rw [hdatabase, hname]; rfl)
  next value hdatabase _ => exact .file rfl (by rw [hdatabase]; rfl) h
  next value hdatabase hname => exact .file rfl (by rw [hdatabase, hname]; rfl) h
  next => cases h

theorem forall₂_of_mapM {items : List Setting} {models : List Model}
    (h : items.mapM model? = some models) :
    List.Forall₂ (fun item m => model? item = some m) items models := by
  induction items generalizing models with
  | nil =>
    cases h
    exact .nil
  | cons item rest ih =>
    simp only [List.mapM_cons, Option.bind_eq_bind, Option.bind_eq_some_iff] at h
    obtain ⟨m, hm, more, hmore, ⟨⟩⟩ := h
    exact .cons hm (ih hmore)

theorem filedModels_of_optional? {members : List (String × Setting)} {models : List Model}
    (h : optional? members "models" [] (fun value => do (← value.items?).mapM model?) =
      some models) : FiledModels (member? members "models") models := by
  unfold optional? at h
  split at h
  next hnone =>
    cases h
    rw [hnone]
    exact .missing
  next value hsome =>
    obtain ⟨items, hitems, hmodels⟩ := Option.bind_eq_some_iff.mp h
    cases value with
    | array found =>
      cases hitems
      rw [hsome]
      exact .items (forall₂_of_mapM hmodels)
    | _ => cases hitems

theorem layers_of_database? {value : Setting} {c : DatabaseConfig} (h : value.database? = some c) :
    Layered none (value.databasePart? "uri") DatabaseConfig.default.uri c.uri ∧
    Layered none ((value.databasePart? "database").or (value.databasePart? "name"))
      DatabaseConfig.default.database c.database ∧
    FiledModels (value.databasePart? "models") c.models := by
  simp only [database?, Option.bind_eq_bind, Option.bind_eq_some_iff] at h
  obtain ⟨members, hmembers, uri, huri, name, hname, models, hmodels, ⟨⟩⟩ := h
  simp only [databasePart?, part?, hmembers, Option.bind_some]
  exact ⟨layered_of_optional? huri, layered_of_databaseName? hname,
    filedModels_of_optional? hmodels⟩

/-- What is read of the database, where the tables around it may be missing. -/
theorem layers_of_settings? {file : Setting} {s : Settings} (h : file.settings? = some s) :
    Layered none file.filedUri? Settings.default.database.uri s.database.uri ∧
    Layered none file.filedName? Settings.default.database.database s.database.database ∧
    Layered none file.filedLogLevel? Settings.default.logLevel s.logLevel ∧
    FiledModels file.filedModels? s.database.models := by
  simp only [filedUri?, filedName?, filedLogLevel?, filedModels?, programPart?]
  unfold settings? optional? at h
  split at h
  next hprogram =>
    cases h
    simp only [hprogram, Option.bind_none]
    exact ⟨.default rfl rfl, .default rfl rfl, .default rfl rfl, .missing⟩
  next program hprogram =>
    simp only [program?, Option.bind_eq_bind, Option.bind_eq_some_iff] at h
    obtain ⟨members, hmembers, database, hdatabase, logLevel, hlogLevel, ⟨⟩⟩ := h
    simp only [hprogram, Option.bind_some, part?, hmembers]
    have hlevel := layered_of_optional? hlogLevel
    unfold optional? at hdatabase
    split at hdatabase
    next hnone =>
      cases hdatabase
      simp only [hnone, Option.bind_none]
      exact ⟨.default rfl rfl, .default rfl rfl, hlevel, .missing⟩
    next value hsome =>
      obtain ⟨huri, hname, hmodels⟩ := layers_of_database? hdatabase
      simp only [hsome, Option.bind_some]
      exact ⟨huri, hname, hlevel, hmodels⟩

end Setting

namespace Settings

open Setting

variable {environment : Environment} {files : FileTree} {path : String} {s : Settings}

/-- What the settings file holds: a table that is empty where there is no file. -/
def fileTable (files : FileTree) (path : String) : Except SettingsError Setting :=
  if path = "" then .ok (.table []) else ofMembers <$> fileMembers files path

theorem ofFile_eq_ok (h : ofFile files path = .ok s) :
    ∃ file, fileTable files path = .ok file ∧ file.settings? = some s := by
  unfold ofFile at h
  unfold fileTable
  split at h
  next hpath =>
    cases h
    exact ⟨_, if_pos hpath, rfl⟩
  next hpath =>
    obtain ⟨members, hmembers, h⟩ := bind_eq_ok.mp h
    split at h
    next found hfound =>
      cases h
      exact ⟨ofMembers members, by rw [if_neg hpath, hmembers]; rfl, hfound⟩
    next => cases h

theorem overlay_eq_ok {change : Settings → Settings} (h : overlay environment = .ok change) :
    change s = ⟨⟨(environment.value? "EAZYAPI_DATABASE_URI").getD s.database.uri,
      (environment.value? "EAZYAPI_DATABASE_NAME").getD s.database.database, s.database.models⟩,
      (environment.value? "EAZYAPI_LOG_LEVEL").getD s.logLevel⟩ := by
  simp only [overlay, bind_eq_ok] at h
  obtain ⟨logLevel, hlogLevel, uri, huri, name, hname, ⟨⟩⟩ := h
  rw [textOf?_eq_ok "EAZYAPI_LOG_LEVEL" (by decide +kernel) (by decide +kernel) hlogLevel,
    textOf?_eq_ok "EAZYAPI_DATABASE_URI" (by decide +kernel) (by decide +kernel) huri,
    textOf?_eq_ok "EAZYAPI_DATABASE_NAME" (by decide +kernel) (by decide +kernel) hname]

/-- The variables that count: none unless the environment is asked for. -/
def visible (env : Bool) (environment : Environment) : Environment := if env then environment else []

theorem build_eq_ok {env : Bool} (h : build env environment files path = .ok s) :
    ∃ change filed, (if env then overlay environment else .ok id) = .ok change ∧
      ofFile files path = .ok filed ∧ change filed = s := by
  unfold build at h
  cases env <;> simpa [bind_eq_ok] using h

/-- A settings file with the name of the database and nothing else. -/
def namedShop : FileTree :=
  ⟨[(["a.json"], .text "\x7b\"eazyapi\":\x7b\"database\":\x7b\"name\":\"shop\"\x7d\x7d\x7d")]⟩

end Settings

end RecordStore
