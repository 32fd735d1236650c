import RecordStore.Model.Registry
import RecordStore.Proofs.Model.Validity
import RecordStore.Proofs.Database.Names

/-!
# The models of a registry

Models are offered to a registry one after another. A model is accepted exactly if it is valid by
itself and its name and its table are not those of a model that was accepted before it. The models
under their names and the names in order stay in step over accepted and refused models alike, so the
registry lists the models that it accepted, in order, and finds each of them by its name.
-/

namespace RecordStore

/-- What a model needs to join the models that were accepted before it. -/
structure Model.Joins (m : Model) (accepted : List Model) : Prop where
  sound : m.Sound
  name : ∀ other ∈ accepted, other.name ≠ m.name
  table : ∀ other ∈ accepted, other.tableName ≠ m.tableName

namespace Registry

variable {r r' : Registry} {m : Model} {name : String}

/-! ## The two parts of a registry -/

/-- The names in order are those that lead to a model, each once, and each leads to the model that
has it. -/
structure InStep (r : Registry) : Prop where
  named : ∀ name m, r.find? name = some m → m.name = name
  ordered : ∀ name, name ∈ r.order ↔ ∃ m, r.find? name = some m
  once : r.order.Nodup

theorem inStep_empty (app : String) : (empty app).InStep where
  named _ _ h := nomatch h
  ordered _ := ⟨fun h => absurd h List.not_mem_nil, fun ⟨_, h⟩ => nomatch h⟩
  once := List.nodup_nil

/-- The registry with one more model. -/
def add (r : Registry) (m : Model) : Registry := putModel m (pushName m.name r)

/-- The name of a model that is added leads to it, the other names lead where they led. -/
theorem find?_add (r : Registry) (m : Model) (name : String) :
    (r.add m).find? name = if m.name = name then some m else r.find? name := by
  unfold find? add putModel pushName
  by_cases hname : m.name = name
  · rw [if_pos hname, List.find?_cons_of_pos (by simpa using hname)]
    rfl
  · rw [if_neg hname, List.find?_cons_of_neg (by simpa using hname)]

theorem order_add (r : Registry) (m : Model) : (r.add m).order = r.order ++ [m.name] := rfl

namespace InStep

theorem mem_models (hr : r.InStep) : m ∈ r.models ↔ r.find? m.name = some m := by
  unfold models
  rw [List.mem_filterMap]
  constructor
  · rintro ⟨name, _, hfound⟩
    rwa [hr.named name m hfound]
  · intro hfound
    exact ⟨m.name, (hr.ordered m.name).mpr ⟨m, hfound⟩, hfound⟩

theorem find?_eq_some_iff (hr : r.InStep) : r.find? name = some m ↔ m ∈ r.models ∧ m.name = name := by
  rw [hr.mem_models]
  constructor
  · intro hfound
    have hname := hr.named name m hfound
    exact ⟨hname ▸ hfound, hname⟩
  · rintro ⟨hfound, rfl⟩
    exact hfound

theorem find?_isSome_iff (hr : r.InStep) :
    (r.find? name).isSome ↔ ∃ other ∈ r.models, other.name = name := by
  rw [Option.isSome_iff_exists]
  exact exists_congr fun other => hr.find?_eq_some_iff

/-- The models have the names in order. -/
theorem map_name (hr : r.InStep) : r.models.map Model.name = r.order := by
  have hstep : ∀ names : List String, (∀ name ∈ names, name ∈ r.order) →
      (names.filterMap r.find?).map Model.name = names := by
    intro names hnames
    induction names with
    | nil => rfl
    | cons name rest ih =>
      obtain ⟨hname, hrest⟩ := List.forall_mem_cons.mp hnames
      obtain ⟨m, hfound⟩ := (hr.ordered name).mp hname
      rw [List.filterMap_cons_some hfound, List.map_cons, hr.named name m hfound, ih hrest]
  exact hstep r.order fun _ h => h

theorem length (hr : r.InStep) : r.length = r.models.length := by
  rw [Registry.length, ← hr.map_name, List.length_map]

theorem distinct (hr : r.InStep) : r.models.Pairwise fun a b => a.name ≠ b.name :=
  List.pairwise_map.mp (hr.map_name.symm ▸ hr.once)

/-- The two parts stay in step when a model of a new name is added. -/
theorem add (hr : r.InStep) (hm : r.find? m.name = none) : (r.add m).InStep where
  named name other h := by
    rw [find?_add] at h
    split at h
    next hname => exact Option.some.inj h ▸ hname
    next => exact hr.named name other h
  ordered name := by
    simp only [order_add, List.mem_append, List.mem_singleton, hr.ordered, find?_add]
    split
    next hname => exact ⟨fun _ => ⟨m, rfl⟩, fun _ => .inr hname.symm⟩
    next hname => exact ⟨fun h => h.resolve_right (Ne.symm hname), .inl⟩
  once := by
    have hnew : m.name ∉ r.order := fun h => by
      obtain ⟨other, hother⟩ := (hr.ordered m.name).mp h
      exact nomatch hm.symm.trans hother
    rw [order_add]
    refine List.nodup_append.mpr ⟨hr.once, by simp, fun name hname other hother heq => hnew ?_⟩
    rwa [← List.mem_singleton.mp hother, ← heq]

theorem models_add (hr : r.InStep) (hm : r.find? m.name = none) :
    (r.add m).models = r.models ++ [m] := by
  have hnew : m.name ∉ r.order := fun h => by
    obtain ⟨other, hother⟩ := (hr.ordered m.name).mp h
    exact nomatch hm.symm.trans hother
  have hold : ∀ name ∈ r.order, (r.add m).find? name = r.find? name := fun name hname => by
    have hne : m.name ≠ name := fun heq => hnew (heq ▸ hname)
    rw [find?_add, if_neg hne]
  unfold models
  rw [order_add, List.filterMap_append, List.filterMap_congr hold,
    List.filterMap_cons_some ((find?_add r m m.name).trans (if_pos rfl)), List.filterMap_nil]

end InStep

/-- The two parts of a registry are in step, and its models are valid. -/
structure Proper (r : Registry) : Prop where
  inStep : r.InStep
  valid : ∀ m ∈ r.models, m.validate = .ok ()

/-- The models of a registry are sound, and neither their names nor their tables are the same. -/
structure Consistent (r : Registry) : Prop where
  inStep : r.InStep
  sound : ∀ m ∈ r.models, m.Sound
  tables : r.models.Pairwise fun a b => a.tableName ≠ b.tableName

theorem Consistent.proper (hr : r.Consistent) : r.Proper :=
  ⟨hr.inStep, fun m hm => Model.validate_eq_ok_iff.mpr (hr.sound m hm)⟩

theorem consistent_empty (app : String) : (empty app).Consistent :=
  ⟨inStep_empty app, fun _ hm => absurd hm List.not_mem_nil, List.Pairwise.nil⟩

/-! ## One model -/

theorem find?_of_joins (hr : r.InStep) (h : m.Joins r.models) : r.find? m.name = none := by
  rw [← Option.not_isSome_iff_eq_none, hr.find?_isSome_iff]
  rintro ⟨other, hother, hname⟩
  exact h.name other hother hname

/-- The checks pass exactly for a model that can join those before it. -/
theorem check_eq_ok_iff (hr : r.InStep) : r.check m = .ok () ↔ m.Joins r.models := by
  have hany {p : Model → Bool} : ¬ r.models.any p = true ↔ ∀ other ∈ r.models, ¬ p other = true := by
    simp only [List.any_eq_true, not_exists, not_and]
  rw [check, bind_eq_ok]
  constructor
  · intro ⟨⟨⟩, hvalid, h⟩
    split at h
    · cases h
    next hname =>
      split at h
      · cases h
      next htable =>
        rw [hr.find?_isSome_iff, not_exists] at hname
        exact ⟨Model.validate_eq_ok_iff.mp hvalid, fun other hother heq => hname other ⟨hother, heq⟩,
          by simpa using hany.mp htable⟩
  · intro hjoins
    refine ⟨(), Model.validate_eq_ok_iff.mpr hjoins.sound, ?_⟩
    rw [find?_of_joins hr hjoins, if_neg (by simp), if_neg (hany.mpr (by simpa using hjoins.table))]

/-- A model that passes the checks is added, any other leaves the registry as it is. -/
theorem offer_run (m : Model) (r : Registry) : offer m r =
    match r.check m with
    | .ok () => .ok () (r.add m)
    | .error e => .error e r := by
  cases hcheck : r.check m with
  | ok => exact runBind_eq_ok.mpr ⟨r, r, rfl, runBind_eq_ok.mpr
      ⟨(), r, runOfExcept_eq_ok.mpr ⟨hcheck, rfl⟩, rfl⟩⟩
  | error e => exact runBind_eq_error.mpr (.inr ⟨r, r, rfl, runBind_eq_error.mpr
      (.inl (runOfExcept_eq_error.mpr ⟨hcheck, rfl⟩))⟩)

/-- A model is accepted exactly if it can join those before it, and then it is added. -/
theorem offer_eq_ok_iff (hr : r.InStep) :
    offer m r = .ok () r' ↔ m.Joins r.models ∧ r' = r.add m := by
  rw [offer_run, ← check_eq_ok_iff hr]
  cases r.check m with
  | ok => simp only [EStateM.Result.ok.injEq, true_and, eq_comm]
  | error e => exact ⟨nofun, fun h => nomatch h.1⟩

/-- A model is refused exactly if it cannot join those before it. -/
theorem offer_refuses_iff (hr : r.InStep) :
    (∃ e, offer m r = .error e r) ↔ ¬ m.Joins r.models := by
  rw [offer_run, ← check_eq_ok_iff hr]
  cases r.check m with
  | ok => exact ⟨nofun, fun h => absurd rfl h⟩
  | error e => exact ⟨fun _ => nofun, fun _ => ⟨e, rfl⟩⟩

/-- A model that is refused changes nothing. -/
theorem offer_eq_error {e : ValidationError} (h : offer m r = .error e r') : r' = r := by
  rw [offer_run] at h
  split at h <;> cases h
  rfl

theorem register_eq_ok_iff (hr : r.InStep) :
    r.register m = .ok r' ↔ m.Joins r.models ∧ r' = r.add m := by
  rw [← offer_eq_ok_iff hr, register]
  cases offer m r with
  | ok => simp only [Except.ok.injEq, EStateM.Result.ok.injEq, true_and]
  | error e => exact ⟨nofun, nofun⟩

/-- A registry stays consistent when a model joins it. -/
theorem Consistent.join (hr : r.Consistent) (hm : m.Joins r.models) : (r.add m).Consistent := by
  have hnew := find?_of_joins hr.inStep hm
  have hmodels := hr.inStep.models_add hnew
  refine ⟨hr.inStep.add hnew, fun other hother => ?_, ?_⟩
  · rcases List.mem_append.mp (hmodels ▸ hother) with hother | hother
    · exact hr.sound other hother
    · exact List.mem_singleton.mp hother ▸ hm.sound
  · rw [hmodels]
    refine List.pairwise_append.mpr ⟨hr.tables, List.pairwise_singleton _ _, fun a ha b hb => ?_⟩
    exact List.mem_singleton.mp hb ▸ hm.table a ha

/-! ## Finding a model -/

/-- A name that leads to a model is an identifier. -/
theorem get_eq_ok : r.get name = .ok m ↔ isIdentifier name = true ∧ r.find? name = some m := by
  unfold get
  split
  next hname => exact ⟨nofun, fun h => absurd h.1 hname⟩
  next hname =>
    have hidentifier : isIdentifier name = true := by simpa using hname
    cases hfound : r.find? name with
    | none => exact ⟨nofun, fun h => nomatch h.2⟩
    | some other => simp only [Except.ok.injEq, Option.some.injEq, hidentifier, true_and]

/-- A name leads to the model that has it. -/
theorem Proper.get_eq_ok_iff (hr : r.Proper) : r.get name = .ok m ↔ m ∈ r.models ∧ m.name = name := by
  rw [get_eq_ok, hr.inStep.find?_eq_some_iff]
  constructor
  · exact And.right
  · rintro ⟨hm, rfl⟩
    exact ⟨(Model.validate_eq_ok_iff.mp (hr.valid m hm)).name, hm, rfl⟩

/-- Every model is found by its name. -/
theorem Proper.get_of_mem (hr : r.Proper) (hm : m ∈ r.models) : r.get m.name = .ok m :=
  hr.get_eq_ok_iff.mpr ⟨hm, rfl⟩

theorem Proper.get_mem (hr : r.Proper) (h : r.get name = .ok m) : m ∈ r.models :=
  (hr.get_eq_ok_iff.mp h).1

theorem Proper.get_name (hr : r.Proper) (h : r.get name = .ok m) : m.name = name :=
  (hr.get_eq_ok_iff.mp h).2

/-- A name leads nowhere if no model has it. -/
theorem Proper.get_refuses_iff (hr : r.Proper) :
    (∃ e, r.get name = .error e) ↔ ∀ m ∈ r.models, m.name ≠ name := by
  simp only [exists_error_iff, hr.get_eq_ok_iff, not_exists, not_and, ne_eq]

/-- The names in order lead to the models. -/
theorem Proper.mapM_get (hr : r.Proper) : r.order.mapM r.get = .ok r.models := by
  rw [← hr.inStep.map_name]
  apply mapM_eq_ok_iff.mpr
  rw [List.forall₂_map_left_iff, List.forall₂_same]
  exact fun m hm => hr.get_of_mem hm

/-! ## Many models -/

/-- The registry after models were offered to it, one after another, whether they were accepted or
not. -/
def offeredAll (r : Registry) (offers : List Model) : Registry :=
  offers.foldl (fun r m => stateOf (offer m r)) r

/-- The registry with more models. -/
def addAll (r : Registry) (models : List Model) : Registry := models.foldl add r

/-- Which of the models that are offered are accepted, given those that were accepted before. -/
inductive Accepts : List Model → List Model → List Model → Prop
  | nil (earlier : List Model) : Accepts earlier [] []
  | accept {earlier rest accepted : List Model} {m : Model} (h : m.Joins earlier)
      (hrest : Accepts (earlier ++ [m]) rest accepted) : Accepts earlier (m :: rest) (m :: accepted)
  | refuse {earlier rest accepted : List Model} {m : Model} (h : ¬ m.Joins earlier)
      (hrest : Accepts earlier rest accepted) : Accepts earlier (m :: rest) accepted

theorem stateOf_offer_of_joins (hr : r.InStep) (h : m.Joins r.models) :
    stateOf (offer m r) = r.add m := by
  rw [(offer_eq_ok_iff hr).mpr ⟨h, rfl⟩]
  rfl

theorem stateOf_offer_of_not_joins (hr : r.InStep) (h : ¬ m.Joins r.models) :
    stateOf (offer m r) = r := by
  obtain ⟨e, he⟩ := (offer_refuses_iff hr).mpr h
  rw [he]
  rfl

/-- A registry stays consistent when a model is offered to it. -/
theorem Consistent.offer (hr : r.Consistent) (m : Model) : (stateOf (offer m r)).Consistent := by
  by_cases h : m.Joins r.models
  · rw [stateOf_offer_of_joins hr.inStep h]
    exact hr.join h
  · rwa [stateOf_offer_of_not_joins hr.inStep h]

theorem Consistent.offeredAll (hr : r.Consistent) (offers : List Model) :
    (r.offeredAll offers).Consistent := by
  induction offers generalizing r with
  | nil => exact hr
  | cons m rest ih => exact ih (hr.offer m)

/-- Whatever is offered, the accepted models are added to those that were there. -/
theorem offeredAll_accepts (hr : r.Consistent) (offers : List Model) :
    ∃ accepted, Accepts r.models offers accepted ∧
      (r.offeredAll offers).models = r.models ++ accepted ∧
      r.offeredAll offers = r.addAll accepted := by
  induction offers generalizing r with
  | nil => exact ⟨[], .nil _, (List.append_nil _).symm, rfl⟩
  | cons m rest ih =>
    obtain ⟨accepted, haccepts, hmodels, hrun⟩ := ih (hr.offer m)
    have hstep : r.offeredAll (m :: rest) = (stateOf (offer m r)).offeredAll rest := rfl
    rw [hstep, hrun]
    rw [hrun] at hmodels
    by_cases h : m.Joins r.models
    · rw [stateOf_offer_of_joins hr.inStep h] at haccepts hmodels ⊢
      rw [hr.inStep.models_add (find?_of_joins hr.inStep h)] at haccepts hmodels
      refine ⟨m :: accepted, .accept h haccepts, ?_, rfl⟩
      rw [hmodels, List.append_assoc]
      rfl
    · rw [stateOf_offer_of_not_joins hr.inStep h] at haccepts hmodels ⊢
      exact ⟨accepted, .refuse h haccepts, hmodels, rfl⟩

/-- Models are accepted all together exactly if each can join those before it. -/
theorem foldlM_register_eq_ok_iff (hr : r.Consistent) {all : List Model} :
    all.foldlM register r = .ok r' ↔
      (∀ before m after, all = before ++ m :: after → m.Joins (r.models ++ before)) ∧
        r' = r.addAll all := by
  induction all generalizing r with
  | nil =>
    constructor
    · rintro ⟨⟩
      exact ⟨by simp, rfl⟩
    · rintro ⟨_, rfl⟩
      rfl
  | cons m rest ih =>
    rw [List.foldlM_cons, bind_eq_ok,
      forall_split_cons (P := fun before (m : Model) => m.Joins (r.models ++ before)),
      List.append_nil]
    constructor
    · rintro ⟨r₁, hfirst, hrest⟩
      obtain ⟨hjoins, rfl⟩ := (register_eq_ok_iff hr.inStep).mp hfirst
      obtain ⟨hall, heq⟩ := (ih (hr.join hjoins)).mp hrest
      simp only [hr.inStep.models_add (find?_of_joins hr.inStep hjoins), List.append_assoc,
        List.singleton_append] at hall
      exact ⟨⟨hjoins, hall⟩, heq⟩
    · rintro ⟨⟨hjoins, hall⟩, heq⟩
      refine ⟨_, (register_eq_ok_iff hr.inStep).mpr ⟨hjoins, rfl⟩, (ih (hr.join hjoins)).mpr ?_⟩
      simp only [hr.inStep.models_add (find?_of_joins hr.inStep hjoins), List.append_assoc,
        List.singleton_append]
      exact ⟨hall, heq⟩

/-- Models that are accepted all together are added one after another. -/
theorem addAll_consistent (hr : r.Consistent) {all : List Model}
    (h : ∀ before m after, all = before ++ m :: after → m.Joins (r.models ++ before)) :
    (r.addAll all).Consistent ∧ (r.addAll all).models = r.models ++ all ∧
      r.offeredAll all = r.addAll all := by
  induction all generalizing r with
  | nil => exact ⟨hr, (List.append_nil _).symm, rfl⟩
  | cons m rest ih =>
    rw [forall_split_cons (P := fun before (m : Model) => m.Joins (r.models ++ before)),
      List.append_nil] at h
    obtain ⟨hjoins, hall⟩ := h
    have hmodels := hr.inStep.models_add (find?_of_joins hr.inStep hjoins)
    have hrest := ih (hr.join hjoins) (by
      simpa only [hmodels, List.append_assoc, List.singleton_append] using hall)
    rw [hmodels, List.append_assoc] at hrest
    refine ⟨hrest.1, hrest.2.1, ?_⟩
    show (stateOf (offer m r)).offeredAll rest = (r.add m).addAll rest
    rw [stateOf_offer_of_joins hr.inStep hjoins]
    exact hrest.2.2

theorem addAll_empty (app : String) (all : List Model) : (empty app).addAll all = .of app all := by
  have hrest (named : List (String × Model)) (order : List String) :
      addAll ⟨app, named, order⟩ all = ⟨app, (all.reverse.map fun m => (m.name, m)) ++ named,
        order ++ all.map Model.name⟩ := by
    induction all generalizing named order with
    | nil => simp [addAll]
    | cons m rest ih =>
      have hstep : addAll ⟨app, named, order⟩ (m :: rest) =
          addAll ⟨app, (m.name, m) :: named, order ++ [m.name]⟩ rest := rfl
      rw [hstep, ih]
      simp
  exact (hrest [] []).trans (by simp [of])

/-- The models of an application are registered together exactly if none of them is refused, and
then the registry is the one of these models. -/
theorem ofModels_eq_ok_iff {app : String} {all : List Model} : ofModels app all = .ok r ↔
    (∀ before m after, all = before ++ m :: after → m.Joins before) ∧ r = .of app all := by
  rw [ofModels, foldlM_register_eq_ok_iff (consistent_empty app), addAll_empty]
  rfl

/-- A valid model may be the only one of an application. -/
theorem ofModels_single {app : String} (hm : m.validate = .ok ()) :
    ofModels app [m] = .ok (.of app [m]) := by
  have hjoins : m.Joins [] := ⟨Model.validate_eq_ok_iff.mp hm, nofun, nofun⟩
  have hall : ∀ before other after, [m] = before ++ other :: after → other.Joins before := by
    rw [forall_split_cons (P := fun before (other : Model) => other.Joins before)]
    exact ⟨hjoins, by simp⟩
  exact ofModels_eq_ok_iff.mpr ⟨hall, rfl⟩

/-- An application has all of its models, in order. -/
theorem ofModels_eq_ok {app : String} {all : List Model} (h : ofModels app all = .ok r) :
    r.models = all ∧ r.Proper := by
  obtain ⟨hjoins, rfl⟩ := ofModels_eq_ok_iff.mp h
  obtain ⟨hconsistent, hmodels, _⟩ := addAll_consistent (consistent_empty app) hjoins
  rw [addAll_empty] at hconsistent hmodels
  exact ⟨hmodels, hconsistent.proper⟩

/-- What a registry is after models were offered to it, one after another, some of which it
accepted. -/
structure Holds (app : String) (offers : List Model) (r : Registry) : Prop where
  name : r.app = app
  /-- It lists the models that were accepted, in the order of their acceptance. -/
  accepted : Accepts [] offers r.models
  once : r.models.Nodup
  length : r.length = r.models.length
  names : r.models.Pairwise fun a b => a.name ≠ b.name
  tables : r.models.Pairwise fun a b => a.tableName ≠ b.tableName
  sound : ∀ m ∈ r.models, m.Sound
  /-- The names in order lead to the models. -/
  listed : r.order.mapM r.get = .ok r.models
  found : ∀ name m, r.get name = .ok m ↔ m ∈ r.models ∧ m.name = name
  missing : ∀ name, (∃ e, r.get name = .error e) ↔ ∀ m ∈ r.models, m.name ≠ name
  accepts : ∀ m, (∃ r', offer m r = .ok () r' ∧ r'.models = r.models ++ [m]) ↔ m.Joins r.models
  refuses : ∀ m, (∃ e r', offer m r = .error e r') ↔ ¬ m.Joins r.models
  /-- A model that is refused changes nothing. -/
  unchanged : ∀ m e r', offer m r = .error e r' → r' = r
  /-- The same registry is made at once, if none of the models is refused. -/
  made : ∀ r', ofModels app offers = .ok r' ↔
    (∀ before m after, offers = before ++ m :: after → m.Joins before) ∧ r' = r

/-- A registry holds exactly the models that it accepted, whatever was offered to it. -/
theorem holds_accepted (app : String) (offers : List Model) :
    Holds app offers ((empty app).offeredAll offers) := by
  have hconsistent := (consistent_empty app).offeredAll offers
  have hstep := hconsistent.inStep
  have hproper := hconsistent.proper
  obtain ⟨accepted, haccepts, hmodels, hrun⟩ := offeredAll_accepts (consistent_empty app) offers
  constructor
  case name =>
    rw [hrun, addAll_empty]
    rfl
  case accepted =>
    rw [hmodels]
    exact haccepts
  case once => exact hstep.distinct.imp fun {a b} hne heq => hne (congrArg Model.name heq)
  case length => exact hstep.length
  case names => exact hstep.distinct
  case tables => exact hconsistent.tables
  case sound => exact hconsistent.sound
  case listed => exact hproper.mapM_get
  case found => exact fun name m => hproper.get_eq_ok_iff
  case missing => exact fun name => hproper.get_refuses_iff
  case accepts =>
    intro m
    constructor
    · rintro ⟨r', hoffer, _⟩
      exact ((offer_eq_ok_iff hstep).mp hoffer).1
    · intro h
      exact ⟨_, (offer_eq_ok_iff hstep).mpr ⟨h, rfl⟩, hstep.models_add (find?_of_joins hstep h)⟩
  case refuses =>
    intro m
    rw [← offer_refuses_iff hstep]
    constructor
    · rintro ⟨e, r', h⟩
      exact ⟨e, offer_eq_error h ▸ h⟩
    · rintro ⟨e, h⟩
      exact ⟨e, _, h⟩
  case unchanged => exact fun m e r' => offer_eq_error
  case made =>
    intro r'
    rw [ofModels_eq_ok_iff]
    refine and_congr_right fun h => ?_
    rw [(addAll_consistent (consistent_empty app) h).2.2, addAll_empty]

end Registry

end RecordStore
