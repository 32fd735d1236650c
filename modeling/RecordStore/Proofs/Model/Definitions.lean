import RecordStore.Model.Definition
import RecordStore.Proofs.Model.Members
import Mathlib.Logic.Relation

/-!
# The spellings of a definition

The same definition can be written in many ways: with its members in another order, without those
that have their defaults, with others that mean nothing, or as the array of its members. `Respelled`
is one such step, for a configuration and for the models and the fields inside it. A step does not
change what is read, so every spelling of a configuration is read as that configuration. A value that
lacks a required member, at any level, is not read at all.
-/

namespace RecordStore

namespace Json

/-- How the members of a definition are declared: their names in order, the other keys that some of
them go by, the values that stand for those left out, and those that must be there. -/
structure Declaration where
  names : List String
  aliases : List String
  defaults : List (String × Json)
  required : List String

namespace Declaration

variable {D : Declaration} {value value' : Json} {members members' : Record} {key : String}

/-! ## Steps between spellings -/

/-- A definition is written another way, with the same values in its members. An object has each key
once. -/
inductive Respelled (D : Declaration) : Json → Json → Prop
  | reordered {members members' : Record} (hkeys : DistinctKeys members)
      (h : members'.Perm members) : Respelled D (.object members) (.object members')
  | dropped {before after : Record} {key : String} {value : Json}
      (hkeys : DistinctKeys (before ++ (key, value) :: after)) (h : (key, value) ∈ D.defaults) :
      Respelled D (.object (before ++ (key, value) :: after)) (.object (before ++ after))
  | extended {before after : Record} {key : String} {value : Json}
      (h : key ∉ D.names ++ D.aliases) :
      Respelled D (.object (before ++ after)) (.object (before ++ (key, value) :: after))
  | listed {members : Record} (h : members.map (·.1) <+: D.names) :
      Respelled D (.object members) (.array (members.map (·.2)))

/-- One member of a definition gets another value, by its key or at its place. -/
inductive Replaced (D : Declaration) (key : String) (old new : Json) : Json → Json → Prop
  | named {before after : Record} : Replaced D key old new
      (.object (before ++ (key, old) :: after)) (.object (before ++ (key, new) :: after))
  | placed {before after : List Json} (h : D.names[before.length]? = some key) :
      Replaced D key old new (.array (before ++ old :: after)) (.array (before ++ new :: after))

/-- A definition is written another way, or one of those in its member `key`. -/
inductive RespelledWithin (D : Declaration) (key : String) (R : Json → Json → Prop) :
    Json → Json → Prop
  | itself {value value' : Json} (h : D.Respelled value value') :
      RespelledWithin D key R value value'
  | item {before after : List Json} {item item' value value' : Json} (h : R item item')
      (hvalue : D.Replaced key (.array (before ++ item :: after)) (.array (before ++ item' :: after))
        value value') : RespelledWithin D key R value value'

/-! ## Members that are read alike -/

theorem member?_append (before after : Record) (key : String) :
    member? (before ++ after) key = (member? before key).or (member? after key) := by
  simp only [member?, List.find?_append, Option.map_or]

theorem member?_of_absent (h : ∀ member ∈ members, member.1 ≠ key) : member? members key = none := by
  rw [member?, Option.map_eq_none_iff, List.find?_eq_none]
  exact fun member hmember heq => h member hmember (of_decide_eq_true heq)

theorem member?_beside {before after : Record} {name : String} (hname : key ≠ name) :
    member? (before ++ (key, value) :: after) name = member? (before ++ after) name := by
  rw [member?_append, member?_append, member?_cons, if_neg hname]

theorem member?_among {before after : Record} (h : ∀ member ∈ before, member.1 ≠ key) :
    member? (before ++ (key, value) :: after) key = some value := by
  rw [member?_append, member?_of_absent h, member?_cons, if_pos rfl, Option.none_or]

/-- The members have the same values, but for some with their defaults that are left out. -/
def Alike (D : Declaration) (members members' : Record) : Prop :=
  ∀ key ∈ D.names ++ D.aliases, member? members' key = member? members key ∨
    member? members' key = none ∧ ∃ value, (key, value) ∈ D.defaults ∧
      member? members key = some value

/-- What is read from a member, and from its default as if it were left out, is read alike. -/
theorem Alike.read {α : Type} (h : D.Alike members members') (key : String)
    (read : Option Json → α) (hkey : key ∈ D.names ++ D.aliases)
    (hread : ∀ value, (key, value) ∈ D.defaults → read none = read (some value)) :
    read (member? members' key) = read (member? members key) := by
  rcases h key hkey with heq | ⟨hnone, value, hvalue, hsome⟩
  · rw [heq]
  · rw [hnone, hsome, hread value hvalue]

theorem Alike.flag? (h : D.Alike members members') (key : String)
    (hkey : key ∈ D.names ++ D.aliases)
    (hfalse : ∀ value, (key, value) ∈ D.defaults → value = .bool false) :
    flag? members' key = flag? members key := by
  rcases h key hkey with heq | ⟨hnone, value, hvalue, hsome⟩
  · rw [Json.flag?, Json.flag?, heq]
  · rw [Json.flag?, Json.flag?, hnone, hsome, hfalse value hvalue]

theorem alike_dropped {before after : Record} {key : String} {value : Json}
    (hkeys : DistinctKeys (before ++ (key, value) :: after)) (h : (key, value) ∈ D.defaults) :
    D.Alike (before ++ (key, value) :: after) (before ++ after) := by
  intro name _
  by_cases hname : key = name
  · subst hname
    have hmiddle : (before ++ (key, value) :: after).Perm ((key, value) :: (before ++ after)) :=
      List.perm_middle
    obtain ⟨hnew, _⟩ := List.pairwise_cons.mp (hkeys.perm hmiddle.symm)
    exact .inr ⟨member?_of_absent fun member hmember => (hnew member hmember).symm, value, h,
      member?_of_distinct hkeys (by simp)⟩
  · exact .inl (member?_beside hname).symm

theorem alike_extended {before after : Record} {key : String} {value : Json}
    (h : key ∉ D.names ++ D.aliases) :
    D.Alike (before ++ after) (before ++ (key, value) :: after) := by
  intro name hname
  exact .inl (member?_beside fun heq => h (heq ▸ hname))

theorem definitionMembers?_listed (h : members.map (·.1) <+: D.names) :
    (Json.array (members.map (·.2))).definitionMembers? D.names = some members := by
  obtain ⟨rest, hrest⟩ := h
  have hlength : (members.map (·.2)).length ≤ D.names.length := by
    rw [← hrest, List.length_append, List.length_map, List.length_map]
    exact Nat.le_add_right _ _
  have hzip : D.names.zip (members.map (·.2)) = members := by
    rw [← hrest, ← List.append_nil (members.map (·.2)), List.zip_append (by simp),
      List.zip_nil_right, List.append_nil]
    exact (List.zip_of_prod rfl rfl).symm
  rw [definitionMembers?, if_pos hlength, hzip]

theorem Respelled.alike (h : D.Respelled value value') :
    ∃ members members', value.definitionMembers? D.names = some members ∧
      value'.definitionMembers? D.names = some members' ∧ D.Alike members members' := by
  cases h with
  | reordered hkeys hperm =>
    exact ⟨_, _, rfl, rfl, fun name _ => .inl (member?_perm hkeys hperm name)⟩
  | dropped hkeys hdefault => exact ⟨_, _, rfl, rfl, alike_dropped hkeys hdefault⟩
  | extended hkey => exact ⟨_, _, rfl, rfl, alike_extended hkey⟩
  | listed hnames =>
    exact ⟨_, _, rfl, definitionMembers?_listed hnames, fun name _ => .inl rfl⟩

/-- An array that is too long has no members, before and after. -/
theorem Replaced.definitionMembers? {old new : Json} (h : D.Replaced key old new value value') :
    (value.definitionMembers? D.names = none ∧ value'.definitionMembers? D.names = none) ∨
      ∃ before after, value.definitionMembers? D.names = some (before ++ (key, old) :: after) ∧
        value'.definitionMembers? D.names = some (before ++ (key, new) :: after) := by
  cases h with
  | named => exact .inr ⟨_, _, rfl, rfl⟩
  | @placed before after hkey =>
    obtain ⟨earlier, later, hnames, hlength⟩ : ∃ earlier later,
        D.names = earlier ++ key :: later ∧ earlier.length = before.length := by
      obtain ⟨hlt, rfl⟩ := List.getElem?_eq_some_iff.mp hkey
      refine ⟨D.names.take before.length, D.names.drop (before.length + 1), ?_, ?_⟩
      · rw [← List.drop_eq_getElem_cons, List.take_append_drop]
      · exact List.length_take_of_le (Nat.le_of_lt hlt)
    by_cases hfits : before.length + (after.length + 1) ≤ D.names.length
    · refine .inr ⟨earlier.zip before, later.zip after, ?_, ?_⟩ <;>
      · rw [definitionMembers?, List.length_append, List.length_cons, if_pos hfits, hnames,
          List.zip_append hlength, List.zip_cons_cons]
    · refine .inl ⟨?_, ?_⟩ <;>
      rw [definitionMembers?, List.length_append, List.length_cons, if_neg hfits]

theorem member?_replaced {before after : Record} {old new : Json} {name : String}
    (hname : key ≠ name) : member? (before ++ (key, new) :: after) name =
      member? (before ++ (key, old) :: after) name := by
  simp only [member?_append, member?_cons, if_neg hname]

/-- What reads the new value of a member as the old one reads the member alike. -/
theorem read_replaced {α : Type} {before after : Record} {old new : Json}
    {read : Option Json → α} (hread : read (some new) = read (some old)) :
    read (member? (before ++ (key, new) :: after) key) =
      read (member? (before ++ (key, old) :: after) key) := by
  simp only [member?_append, member?_cons, if_true]
  cases member? before key with
  | some found => rfl
  | none => exact hread

/-! ## Members that are there -/

/-- A definition has a value in its member `key`, by the key or at the place of the member. -/
inductive Holds (D : Declaration) : Json → String → Json → Prop
  | named {members : Record} {key : String} {value : Json} (h : member? members key = some value) :
      Holds D (.object members) key value
  | placed {items : List Json} {i : Nat} {key : String} {value : Json}
      (hkey : D.names[i]? = some key) (h : items[i]? = some value) : Holds D (.array items) key value

/-- A definition has no value in some member that it needs. -/
def Lacking (D : Declaration) (value : Json) : Prop :=
  ∃ key ∈ D.required, ∀ found, ¬ D.Holds value key found

/-- A definition lacks a member, or one of the definitions in its member `key` is flawed. -/
inductive FlawedWithin (D : Declaration) (key : String) (P : Json → Prop) : Json → Prop
  | itself {value : Json} (h : D.Lacking value) : FlawedWithin D key P value
  | item {items : List Json} {item value : Json} (hvalue : D.Holds value key (.array items))
      (hitem : item ∈ items) (h : P item) : FlawedWithin D key P value

theorem distinctKeys_zip {names : List String} (h : names.Nodup) (items : List Json) :
    DistinctKeys (names.zip items) := by
  induction names generalizing items with
  | nil => exact List.Pairwise.nil
  | cons name rest ih =>
    cases items with
    | nil => exact List.Pairwise.nil
    | cons item items =>
      obtain ⟨hname, hrest⟩ := List.nodup_cons.mp h
      refine List.pairwise_cons.mpr ⟨fun member hmember heq => hname ?_, ih hrest items⟩
      rw [show name = member.1 from heq]
      exact (List.of_mem_zip hmember).1

theorem holds_iff (hnames : D.names.Nodup) (h : value.definitionMembers? D.names = some members)
    {found : Json} : D.Holds value key found ↔ member? members key = some found := by
  cases value with
  | object given =>
    cases h
    exact ⟨fun (.named hfound) => hfound, .named⟩
  | array items =>
    rw [definitionMembers?] at h
    split at h
    · cases h
      have hmem : (key, found) ∈ D.names.zip items ↔
          ∃ i : Nat, D.names[i]? = some key ∧ items[i]? = some found := by
        simp only [List.mem_iff_getElem?, List.getElem?_zip_eq_some]
      constructor
      · rintro ⟨⟩
        next i hkey hfound =>
          exact member?_of_distinct (distinctKeys_zip hnames items) (hmem.mpr ⟨i, hkey, hfound⟩)
      · intro hfound
        obtain ⟨i, hkey, hitem⟩ := hmem.mp (member?_eq_some hfound)
        exact .placed hkey hitem
    · cases h
  | _ => cases h

theorem member?_of_not_holds (hnames : D.names.Nodup)
    (h : value.definitionMembers? D.names = some members)
    (hlacks : ∀ found, ¬ D.Holds value key found) : member? members key = none :=
  Option.eq_none_iff_forall_ne_some.mpr fun found hfound =>
    hlacks found ((holds_iff hnames h).mpr hfound)

end Declaration

/-! ## Lists of definitions -/

section
variable {α : Type} {write : α → Json} {read : Json → Option α} {item item' : Json}

/-- What the definitions in a member are read as, if it is there. -/
def definitionsOf? (read : Json → Option α) : Option Json → Option (List α)
  | none => some []
  | some (.array items) => items.mapM read
  | some _ => none

theorem definitionsOf?_replaced (h : read item' = read item) (before after : List Json) :
    definitionsOf? read (some (.array (before ++ item' :: after))) =
      definitionsOf? read (some (.array (before ++ item :: after))) := by
  simp only [definitionsOf?, List.mapM_append, List.mapM_cons, h]

theorem definitionsOf?_eq_none {items : List Json} (hitem : item ∈ items) (h : read item = none) :
    definitionsOf? read (some (.array items)) = none := by
  obtain ⟨before, after, rfl⟩ := List.append_of_mem hitem
  cases hbefore : before.mapM read <;>
    simp only [definitionsOf?, List.mapM_append, List.mapM_cons, h, hbefore, Option.bind_eq_bind,
      Option.bind_none, Option.bind_some]

theorem definitionsOf?_map {values : List α} (h : ∀ value ∈ values, read (write value) = some value) :
    definitionsOf? read (some (.array (values.map write))) = some values := mapM_map_of_read h

end

end Json

open Json Json.Declaration

variable {value value' : Json}

namespace Field

def declaration : Declaration where
  names := ["name", "kind", "nullable", "unique", "default"]
  aliases := []
  defaults := [("nullable", .bool false), ("unique", .bool false), ("default", .null)]
  required := ["name", "kind"]

theorem ofJson?_toJson {f : Field} (h : f.default ≠ some .null) : ofJson? f.toJson = some f := by
  have hkind : FieldKind.ofJson? (.string f.kind.word) = some f.kind := by cases f.kind <;> rfl
  have hdefault : (some (ofOption f.default)).filter (¬ ·.isNull) = f.default := by
    cases hf : f.default with
    | none => rfl
    | some value =>
      cases value with
      | null => exact absurd hf h
      | _ => rfl
  show (FieldKind.ofJson? (.string f.kind.word)).bind (fun kind =>
    some (Field.mk f.name kind f.nullable f.unique
      ((some (ofOption f.default)).filter (¬ ·.isNull)))) = some f
  rw [hkind, hdefault]
  rfl

theorem ofJson?_of_respelled (h : declaration.Respelled value value') :
    ofJson? value' = ofJson? value := by
  obtain ⟨members, members', hmembers, hmembers', halike⟩ := h.alike
  have hname : requiredString? members' "name" = requiredString? members "name" :=
    halike.read "name" (·.bind toString?) (by decide) (by simp [declaration])
  have hkind : member? members' "kind" = member? members "kind" :=
    halike.read "kind" id (by decide) (by simp [declaration])
  have hnullable : flag? members' "nullable" = flag? members "nullable" :=
    halike.flag? "nullable" (by decide) (by simp [declaration])
  have hunique : flag? members' "unique" = flag? members "unique" :=
    halike.flag? "unique" (by decide) (by simp [declaration])
  have hdefault : (member? members' "default").filter (¬ ·.isNull) =
      (member? members "default").filter (¬ ·.isNull) :=
    halike.read "default" (Option.filter (¬ ·.isNull)) (by decide) fun value hvalue => by
      rw [show value = .null by simpa [declaration] using hvalue]
      rfl
  rw [declaration] at hmembers hmembers'
  simp only [ofJson?, hmembers, hmembers', hname, hkind, hnullable, hunique, hdefault,
    Option.bind_eq_bind, Option.bind_some]

theorem ofJson?_of_lacking (h : declaration.Lacking value) : ofJson? value = none := by
  obtain ⟨key, hkey, hlacks⟩ := h
  rw [declaration] at hkey
  cases hmembers : value.definitionMembers? declaration.names with
  | none =>
    rw [declaration] at hmembers
    simp only [ofJson?, hmembers, Option.bind_eq_bind, Option.bind_none]
  | some members =>
    have hnone := member?_of_not_holds (by decide) hmembers hlacks
    rw [declaration] at hmembers
    simp only [List.mem_cons, List.not_mem_nil, or_false] at hkey
    rcases hkey with rfl | rfl
    · simp [ofJson?, hmembers, requiredString?, hnone]
    · simp [ofJson?, hmembers, hnone]

end Field

namespace Model

def declaration : Declaration where
  names := ["name", "table", "fields"]
  aliases := []
  defaults := [("table", .null), ("fields", .array [])]
  required := ["name"]

/-- A model, or one of its fields, is written another way. -/
def Respelled : Json → Json → Prop :=
  declaration.RespelledWithin "fields" Field.declaration.Respelled

/-- A model lacks its name, or one of its fields lacks its name or its kind. -/
def Flawed : Json → Prop := declaration.FlawedWithin "fields" Field.declaration.Lacking

variable {members members' : Record}

theorem fieldsOf?_eq (members : Record) :
    fieldsOf? members = definitionsOf? Field.ofJson? (member? members "fields") := rfl

theorem ofJson?_toJson {m : Model} (h : ∀ f ∈ m.fields, f.default ≠ some .null) :
    ofJson? m.toJson = some m := by
  have hfields := definitionsOf?_map fun f hf => Field.ofJson?_toJson (h f hf)
  obtain ⟨name, table, fields⟩ := m
  cases table <;>
  · rw [ofJson?, toJson]
    simp [definitionMembers?, requiredString?, tableOf?, fieldsOf?_eq, member?_cons, toString?,
      hfields, ofOption]

theorem ofJson?_of_none (h : value.definitionMembers? declaration.names = none) :
    ofJson? value = none := by
  rw [declaration] at h
  simp only [ofJson?, h, Option.bind_eq_bind, Option.bind_none]

/-- What is read of a model is read of its three members. -/
theorem ofJson?_congr (hmembers : value.definitionMembers? declaration.names = some members)
    (hmembers' : value'.definitionMembers? declaration.names = some members')
    (hname : member? members' "name" = member? members "name")
    (htable : tableOf? members' = tableOf? members)
    (hfields : fieldsOf? members' = fieldsOf? members) : ofJson? value' = ofJson? value := by
  rw [declaration] at hmembers hmembers'
  simp only [ofJson?, hmembers, hmembers', requiredString?, hname, htable, hfields,
    Option.bind_eq_bind, Option.bind_some]

theorem ofJson?_of_itself (h : declaration.Respelled value value') :
    ofJson? value' = ofJson? value := by
  obtain ⟨members, members', hmembers, hmembers', halike⟩ := h.alike
  refine ofJson?_congr hmembers hmembers' ?_ ?_ ?_
  · exact halike.read "name" id (by decide) (by simp [declaration])
  · rcases halike "table" (by decide) with heq | ⟨hnone, value, hvalue, hsome⟩
    · rw [tableOf?, tableOf?, heq]
    · have hnull : value = .null := by simpa [declaration] using hvalue
      rw [tableOf?, tableOf?, hnone, hsome, hnull]
  · refine halike.read "fields" (definitionsOf? Field.ofJson?) (by decide) fun value hvalue => ?_
    rw [show value = .array [] by simpa [declaration] using hvalue]
    rfl

theorem ofJson?_of_respelled (h : Respelled value value') : ofJson? value' = ofJson? value := by
  cases h with
  | itself h => exact ofJson?_of_itself h
  | item hfield hvalue =>
    rcases hvalue.definitionMembers? with ⟨hnone, hnone'⟩ | ⟨before, after, hmembers, hmembers'⟩
    · rw [ofJson?_of_none hnone, ofJson?_of_none hnone']
    · refine ofJson?_congr hmembers hmembers' ?_ ?_ ?_
      · exact member?_replaced (by decide)
      · rw [tableOf?, tableOf?, member?_replaced (by decide)]
      · exact read_replaced (definitionsOf?_replaced (Field.ofJson?_of_respelled hfield) _ _)

theorem ofJson?_of_flawed (h : Flawed value) : ofJson? value = none := by
  cases hmembers : value.definitionMembers? declaration.names with
  | none => exact ofJson?_of_none hmembers
  | some members =>
    cases h with
    | itself h =>
      obtain ⟨key, hkey, hlacks⟩ := h
      have hnone := member?_of_not_holds (by decide) hmembers hlacks
      rw [declaration] at hmembers hkey
      rw [List.mem_singleton.mp hkey] at hnone
      simp [ofJson?, hmembers, requiredString?, hnone]
    | item hfields hfield h =>
      have hnone : fieldsOf? members = none := by
        rw [fieldsOf?_eq, (holds_iff (by decide) hmembers).mp hfields,
          definitionsOf?_eq_none hfield (Field.ofJson?_of_lacking h)]
      rw [declaration] at hmembers
      simp [ofJson?, hmembers, hnone]

end Model

namespace DatabaseConfig

def declaration : Declaration where
  names := ["uri", "database", "models"]
  aliases := ["name"]
  defaults := [("models", .array [])]
  required := ["uri"]

/-- A configuration, or one of its models, is written another way. The name of the database may
change to the other of its keys. -/
inductive Respelled : Json → Json → Prop
  | renamed {before after : Record} {value : Json}
      (h : ∀ member ∈ before ++ after, member.1 ≠ "database" ∧ member.1 ≠ "name") :
      Respelled (.object (before ++ ("database", value) :: after))
        (.object (before ++ ("name", value) :: after))
  | within {value value' : Json}
      (h : declaration.RespelledWithin "models" Model.Respelled value value') :
      Respelled value value'

/-- A configuration lacks its address, or has its name under none of its keys or under both, or one
of its models is flawed. -/
inductive Flawed : Json → Prop
  | unnamed {value : Json} (hdatabase : ∀ found, ¬ declaration.Holds value "database" found)
      (hname : ∀ found, ¬ declaration.Holds value "name" found) : Flawed value
  | namedTwice {value database name : Json} (hdatabase : declaration.Holds value "database" database)
      (hname : declaration.Holds value "name" name) : Flawed value
  | within {value : Json} (h : declaration.FlawedWithin "models" Model.Flawed value) : Flawed value

variable {members members' : Record}

theorem modelsOf?_eq (members : Record) :
    modelsOf? members = definitionsOf? Model.ofJson? (member? members "models") := rfl

theorem ofJson?_toJson {c : DatabaseConfig}
    (h : ∀ m ∈ c.models, ∀ f ∈ m.fields, f.default ≠ some .null) : ofJson? c.toJson = some c := by
  have hmodels := definitionsOf?_map fun m hm => Model.ofJson?_toJson (h m hm)
  have hdatabase : databaseOf? [("uri", .string c.uri), ("database", .string c.database),
      ("models", .array (c.models.map Model.toJson))] = some c.database := rfl
  rw [ofJson?, toJson]
  simp [definitionMembers?, requiredString?, hdatabase, modelsOf?_eq, member?_cons, toString?,
    hmodels]

theorem ofJson?_of_none (h : value.definitionMembers? declaration.names = none) :
    ofJson? value = none := by
  rw [declaration] at h
  simp only [ofJson?, h, Option.bind_eq_bind, Option.bind_none]

/-- What is read of a configuration is read of its three members. -/
theorem ofJson?_congr (hmembers : value.definitionMembers? declaration.names = some members)
    (hmembers' : value'.definitionMembers? declaration.names = some members')
    (huri : member? members' "uri" = member? members "uri")
    (hdatabase : databaseOf? members' = databaseOf? members)
    (hmodels : modelsOf? members' = modelsOf? members) : ofJson? value' = ofJson? value := by
  rw [declaration] at hmembers hmembers'
  simp only [ofJson?, hmembers, hmembers', requiredString?, huri, hdatabase, hmodels,
    Option.bind_eq_bind, Option.bind_some]

theorem databaseOf?_congr (hdatabase : member? members' "database" = member? members "database")
    (hname : member? members' "name" = member? members "name") :
    databaseOf? members' = databaseOf? members := by
  rw [databaseOf?, databaseOf?, hdatabase, hname]

/-- A name under one key only is the name, under either key. -/
theorem databaseOf?_single {before after : Record} {key : String}
    (hkey : key = "database" ∨ key = "name")
    (h : ∀ member ∈ before ++ after, member.1 ≠ "database" ∧ member.1 ≠ "name") :
    databaseOf? (before ++ (key, value) :: after) = value.toString? := by
  have hdatabase : member? (before ++ after) "database" = none :=
    member?_of_absent fun member hmember => (h member hmember).1
  have hname : member? (before ++ after) "name" = none :=
    member?_of_absent fun member hmember => (h member hmember).2
  have hbefore (member : String × Json) (hmember : member ∈ before) :
      member.1 ≠ "database" ∧ member.1 ≠ "name" := h member (List.mem_append_left _ hmember)
  rcases hkey with rfl | rfl
  · rw [databaseOf?, member?_among fun member hmember => (hbefore member hmember).1,
      member?_beside (by decide), hname]
  · rw [databaseOf?, member?_among fun member hmember => (hbefore member hmember).2,
      member?_beside (by decide), hdatabase]

theorem ofJson?_of_itself (h : declaration.Respelled value value') :
    ofJson? value' = ofJson? value := by
  obtain ⟨members, members', hmembers, hmembers', halike⟩ := h.alike
  refine ofJson?_congr hmembers hmembers' ?_ (databaseOf?_congr ?_ ?_) ?_
  · exact halike.read "uri" id (by decide) (by simp [declaration])
  · exact halike.read "database" id (by decide) (by simp [declaration])
  · exact halike.read "name" id (by decide) (by simp [declaration])
  · refine halike.read "models" (definitionsOf? Model.ofJson?) (by decide) fun value hvalue => ?_
    rw [show value = .array [] by simpa [declaration] using hvalue]
    rfl

theorem ofJson?_of_respelled (h : Respelled value value') : ofJson? value' = ofJson? value := by
  cases h with
  | renamed hother =>
    refine ofJson?_congr rfl rfl ?_ ?_ ?_
    · rw [member?_beside (by decide), member?_beside (by decide)]
    · rw [databaseOf?_single (.inl rfl) hother, databaseOf?_single (.inr rfl) hother]
    · rw [modelsOf?_eq, modelsOf?_eq, member?_beside (by decide), member?_beside (by decide)]
  | within h =>
    cases h with
    | itself h => exact ofJson?_of_itself h
    | item hmodel hvalue =>
      rcases hvalue.definitionMembers? with ⟨hnone, hnone'⟩ | ⟨before, after, hmembers, hmembers'⟩
      · rw [ofJson?_of_none hnone, ofJson?_of_none hnone']
      · refine ofJson?_congr hmembers hmembers' ?_ (databaseOf?_congr ?_ ?_) ?_
        · exact member?_replaced (by decide)
        · exact member?_replaced (by decide)
        · exact member?_replaced (by decide)
        · exact read_replaced (definitionsOf?_replaced (Model.ofJson?_of_respelled hmodel) _ _)

/-- However often a configuration is written another way, the same is read. -/
theorem ofJson?_of_steps (h : Relation.ReflTransGen Respelled value value') :
    ofJson? value' = ofJson? value := by
  induction h with
  | refl => rfl
  | tail _ hstep ih => exact (ofJson?_of_respelled hstep).trans ih

theorem ofJson?_of_flawed (h : Flawed value) : ofJson? value = none := by
  cases hmembers : value.definitionMembers? declaration.names with
  | none => exact ofJson?_of_none hmembers
  | some members =>
    have hfound {key : String} {found : Json} (hkey : declaration.Holds value key found) :
        member? members key = some found := (holds_iff (by decide) hmembers).mp hkey
    have habsent {key : String} (hlacks : ∀ found, ¬ declaration.Holds value key found) :
        member? members key = none := member?_of_not_holds (by decide) hmembers hlacks
    rw [declaration] at hmembers
    cases h with
    | unnamed hdatabase hname =>
      have hnone : databaseOf? members = none := by
        rw [databaseOf?, habsent hdatabase, habsent hname]
      simp [ofJson?, hmembers, hnone]
    | namedTwice hdatabase hname =>
      have hnone : databaseOf? members = none := by
        rw [databaseOf?, hfound hdatabase, hfound hname]
      simp [ofJson?, hmembers, hnone]
    | within h =>
      cases h with
      | itself h =>
        obtain ⟨key, hkey, hlacks⟩ := h
        have hnone := habsent hlacks
        rw [declaration] at hkey
        rw [List.mem_singleton.mp hkey] at hnone
        simp [ofJson?, hmembers, requiredString?, hnone]
      | item hmodels hmodel h =>
        have hnone : modelsOf? members = none := by
          rw [modelsOf?_eq, hfound hmodels,
            definitionsOf?_eq_none hmodel (Model.ofJson?_of_flawed h)]
        simp [ofJson?, hmembers, hnone]

/-- Every spelling of a configuration is read as that configuration, and a flawed value is not read. A
`null` default is the exception: it is read as none. -/
theorem spellings_read_back (c : DatabaseConfig)
    (h : ∀ m ∈ c.models, ∀ f ∈ m.fields, f.default ≠ some .null) :
    (∀ value, Relation.ReflTransGen Respelled c.toJson value → ofJson? value = some c) ∧
      ∀ value, Flawed value → ofJson? value = none :=
  ⟨fun _ hsteps => (ofJson?_of_steps hsteps).trans (ofJson?_toJson h), fun _ => ofJson?_of_flawed⟩

/-- A configuration with its name under the other key and everything inside its models as arrays; a
name under both keys is refused. -/
theorem short_spelling_read :
    (∀ m ∈ [Model.mk "Person" none [⟨"name", .text, false, true, none⟩]],
      ∀ f ∈ m.fields, f.default ≠ some .null) ∧
    ofJson? (.object [("uri", .string "sqlite://a.db"), ("name", .string "a"),
      ("models", .array [.array [.string "Person", .null,
        .array [.array [.string "name", .string "text", .bool false, .bool true, .null]]]])]) =
      some ⟨"sqlite://a.db", "a", [⟨"Person", none, [⟨"name", .text, false, true, none⟩]⟩]⟩ ∧
    ofJson? (.object [("uri", .string "sqlite://a.db"), ("database", .string "a"),
      ("name", .string "a")]) = none := by
  have h := spellings_read_back
    ⟨"sqlite://a.db", "a", [⟨"Person", none, [⟨"name", .text, false, true, none⟩]⟩]⟩ (by decide)
  refine ⟨by decide, h.1 _ ?_, h.2 _ (.namedTwice (.named rfl) (.named rfl))⟩
  -- From the innermost definition outwards: the field as an array, then the model, then the key.
  have hfield : Field.declaration.Respelled (Field.toJson ⟨"name", .text, false, true, none⟩)
      (.array [.string "name", .string "text", .bool false, .bool true, .null]) :=
    .listed (by decide)
  have hmodel : Model.Respelled
      (Model.toJson ⟨"Person", none, [⟨"name", .text, false, true, none⟩]⟩) _ :=
    @RespelledWithin.item _ _ _ [] [] _ _ _ _ hfield
      (@Replaced.named _ _ _ _ [("name", .string "Person"), ("table", .null)] [])
  have hlisted : Model.Respelled _ (.array [.string "Person", .null,
      .array [.array [.string "name", .string "text", .bool false, .bool true, .null]]]) :=
    .itself (@Declaration.Respelled.listed _ [("name", .string "Person"), ("table", .null), ("fields",
      .array [.array [.string "name", .string "text", .bool false, .bool true, .null]])] (by decide))
  have hinside {model model' : Json} (h : Model.Respelled model model') : Respelled
      (.object [("uri", .string "sqlite://a.db"), ("database", .string "a"),
        ("models", .array [model])])
      (.object [("uri", .string "sqlite://a.db"), ("database", .string "a"),
        ("models", .array [model'])]) :=
    .within (@RespelledWithin.item _ _ _ [] [] _ _ _ _ h
      (@Replaced.named _ _ _ _ [("uri", .string "sqlite://a.db"), ("database", .string "a")] []))
  refine .head (hinside hmodel) (.head (hinside hlisted) (.single ?_))
  exact @Respelled.renamed [("uri", .string "sqlite://a.db")] [_] _ (by simp)

end DatabaseConfig

end RecordStore
