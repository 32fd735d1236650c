import RecordStore.Query.Compile
import RecordStore.Proofs.Outcome

/-!
# Valid models

The checks of a model, field by field and with the names of the fields before it, come to conditions
on the model as a whole: its names are identifiers, no field has the name of the primary key or of
another field, and every default can be stored.
-/

namespace RecordStore

theorem Field.encodeDefault_isOk_iff {f : Field} : (∃ default, f.encodeDefault = .ok default) ↔
    ∀ value, f.default = some value → ∃ cell, f.encode value = .ok cell := by
  unfold encodeDefault
  cases f.default with
  | none => exact iff_of_true ⟨none, rfl⟩ nofun
  | some value =>
    constructor
    · intro ⟨default, h⟩ other hother
      obtain ⟨cell, hcell, _⟩ := map_eq_ok.mp h
      cases hother
      exact ⟨cell, hcell⟩
    · intro h
      obtain ⟨cell, hcell⟩ := h value rfl
      exact ⟨some cell, map_eq_ok.mpr ⟨cell, hcell, rfl⟩⟩

namespace Model

variable {m : Model}

/-- What makes a model valid. -/
structure Sound (m : Model) : Prop where
  name : isIdentifier m.name = true
  table : isIdentifier m.tableName = true
  fields : ∀ f ∈ m.fields, isIdentifier f.name = true
  unreserved : ∀ f ∈ m.fields, f.name ≠ primaryKey
  distinct : m.fields.Pairwise fun a b => a.name ≠ b.name
  defaults : ∀ f ∈ m.fields, ∀ value, f.default = some value → ∃ cell, f.encode value = .ok cell

/-- What the checks of the fields after those with the names `earlier` come to. -/
structure SoundFields (earlier : List String) (fields : List Field) : Prop where
  names : ∀ f ∈ fields, isIdentifier f.name = true
  unreserved : ∀ f ∈ fields, f.name ≠ primaryKey
  new : ∀ f ∈ fields, f.name ∉ earlier
  distinct : fields.Pairwise fun a b => a.name ≠ b.name
  defaults : ∀ f ∈ fields, ∀ value, f.default = some value → ∃ cell, f.encode value = .ok cell

theorem soundFields_cons {earlier : List String} {f : Field} {rest : List Field} :
    SoundFields earlier (f :: rest) ↔ isIdentifier f.name = true ∧ f.name ≠ primaryKey ∧
      f.name ∉ earlier ∧ (∃ default, f.encodeDefault = .ok default) ∧
        SoundFields (f.name :: earlier) rest := by
  constructor
  · intro h
    have hnames := List.forall_mem_cons.mp h.names
    have hunreserved := List.forall_mem_cons.mp h.unreserved
    have hnew := List.forall_mem_cons.mp h.new
    have hdistinct := List.pairwise_cons.mp h.distinct
    have hdefaults := List.forall_mem_cons.mp h.defaults
    refine ⟨hnames.1, hunreserved.1, hnew.1, Field.encodeDefault_isOk_iff.mpr hdefaults.1,
      hnames.2, hunreserved.2, fun g hg hmem => ?_, hdistinct.2, hdefaults.2⟩
    rcases List.mem_cons.mp hmem with heq | hmem
    · exact hdistinct.1 g hg heq.symm
    · exact hnew.2 g hg hmem
  · intro ⟨hname, hunreserved, hnew, hdefault, h⟩
    exact ⟨List.forall_mem_cons.mpr ⟨hname, h.names⟩,
      List.forall_mem_cons.mpr ⟨hunreserved, h.unreserved⟩,
      List.forall_mem_cons.mpr ⟨hnew, fun g hg hmem => h.new g hg (List.mem_cons_of_mem _ hmem)⟩,
      List.pairwise_cons.mpr ⟨fun g hg heq => h.new g hg (heq ▸ List.mem_cons_self), h.distinct⟩,
      List.forall_mem_cons.mpr ⟨Field.encodeDefault_isOk_iff.mp hdefault, h.defaults⟩⟩

theorem validateFields_eq_ok_iff {earlier : List String} {fields : List Field} :
    m.validateFields earlier fields = .ok () ↔ SoundFields earlier fields := by
  induction fields generalizing earlier with
  | nil =>
    refine iff_of_true rfl ?_
    constructor <;> simp
  | cons f rest ih =>
    rw [soundFields_cons, ← ih, validateFields]
    split
    next hname => simp [hname]
    next hname =>
      split
      next hid => simp [hid]
      next hid =>
        split
        next hearlier => simp [hearlier]
        next hearlier =>
          simp only [not_not] at hname
          simp only [hname, hid, hearlier, ne_eq, not_false_eq_true, true_and, bind_eq_ok,
            exists_and_right]

/-- The checks of a model succeed exactly if it is sound. -/
theorem validate_eq_ok_iff : m.validate = .ok () ↔ m.Sound := by
  have hsound : m.Sound ↔ isIdentifier m.name = true ∧ isIdentifier m.tableName = true ∧
      SoundFields [] m.fields := by
    constructor
    · exact fun h => ⟨h.name, h.table, h.fields, h.unreserved, fun _ _ => List.not_mem_nil,
        h.distinct, h.defaults⟩
    · exact fun ⟨hname, htable, h⟩ =>
        ⟨hname, htable, h.names, h.unreserved, h.distinct, h.defaults⟩
  rw [hsound, ← validateFields_eq_ok_iff (m := m), validate]
  split
  next hname => simp [hname]
  next hname =>
    split
    next htable => simp [htable]
    next htable =>
      simp only [not_not] at hname htable
      simp only [hname, htable, true_and]

/-- The statement that makes the table of a valid model. -/
theorem createTable_of_valid (h : m.validate = .ok ()) :
    ∃ specs, m.fields.mapM columnSpec = .ok specs ∧ m.createTable = .ok ⟨m.tableName, specs⟩ := by
  have hspecs : ∃ specs, m.fields.mapM columnSpec = .ok specs := by
    refine mapM_isOk fun f hf => ?_
    have hdefaults := (validate_eq_ok_iff.mp h).defaults f hf
    obtain ⟨default, hdefault⟩ := Field.encodeDefault_isOk_iff.mpr hdefaults
    exact ⟨_, bind_eq_ok.mpr ⟨default, hdefault, rfl⟩⟩
  obtain ⟨specs, hspecs⟩ := hspecs
  exact ⟨specs, hspecs, bind_eq_ok.mpr ⟨specs, hspecs, rfl⟩⟩

end Model

end RecordStore
