import RecordStore.Proofs.Json.Proper
import RecordStore.Proofs.Model.Typing
import RecordStore.Proofs.Number.Nearest

/-!
# Encoding and decoding values

A field encodes exactly the values that its kind takes, and `null` if it may. Decoding the cell gives
the value back, but for a number in a field of doubles, which comes back as the double next to it.
Conversely a cell is encoded again from what it is decoded as, if it is the cell of any value that
can be read. For fields of JSON values all of this is about values that are read back from their text:
the text of a value that is nested 128 deep is not, nor is that of every double.
-/

namespace RecordStore

theorem Number.ofInt64_of_toInt64? {n : Number} {i : Int64} (h : n.toInt64? = some i) :
    Number.ofInt64 i = n := by
  cases n with
  | float x => cases h
  | integer k hk =>
    rw [toInt64?] at h
    by_cases hfits : FitsInt64 k
    · rw [if_pos hfits] at h
      cases h
      simp only [ofInt64, toInt_ofInt_of_fits hfits]
    · rw [if_neg hfits] at h
      cases h

/-! ## The values of a kind -/

/-- The values besides `null` that a kind takes. -/
inductive FieldKind.Takes : FieldKind → Json → Prop
  | int {n : Int} {h : Number.InRange n} (hfits : FitsInt64 n) : Takes .int (.number (.integer n h))
  | float (n : Number) : Takes .float (.number n)
  | text (s : String) : Takes .text (.string s)
  | bool (b : Bool) : Takes .bool (.bool b)
  | json {value : Json} (h : value ≠ .null) : Takes .json value

/-- The values that a field takes: those of its kind, and `null` if it may be empty. -/
def Field.Takes (f : Field) (value : Json) : Prop :=
  value = .null ∧ f.nullable = true ∨ f.kind.Takes value

/-- What a kind gives back of a value that it encoded: the double nearest to a number in a field of
doubles, and otherwise the value itself. -/
def FieldKind.GivesBack (kind : FieldKind) (value shown : Json) : Prop :=
  match kind, value with
  | .float, .number n =>
    ∃ x, shown = .number (.float x) ∧ n.toDouble = .finite x ∧ x.Nearest n.value
  | _, _ => shown = value

namespace FieldKind

variable {kind : FieldKind} {value : Json} {cell : SqlValue}

theorem Takes.ne_null (h : kind.Takes value) : value ≠ .null := by
  cases h with
  | json hv => exact hv
  | _ => exact Json.noConfusion

/-- A kind encodes the values that it takes. -/
theorem encode?_of_takes (h : kind.Takes value) : ∃ cell, kind.encode? value = some cell := by
  cases h with
  | @int n _ hfits =>
    refine ⟨.integer (Int64.ofInt n), ?_⟩
    rw [encode?, Number.toInt64?, if_pos hfits]
    rfl
  | float n => exact ⟨_, rfl⟩
  | text s => exact ⟨_, rfl⟩
  | bool b => exact ⟨_, rfl⟩
  | json => exact ⟨_, rfl⟩

theorem takes_of_encode? (hv : value ≠ .null) (h : kind.encode? value = some cell) :
    kind.Takes value := by
  cases kind with
  | int =>
    cases value with
    | number n =>
      obtain ⟨i, hi, _⟩ := Option.map_eq_some_iff.mp h
      cases n with
      | integer n hrange =>
        rw [Number.toInt64?] at hi
        by_cases hfits : FitsInt64 n
        · exact .int hfits
        · rw [if_neg hfits] at hi
          cases hi
      | float x => cases hi
    | _ => cases h
  | float =>
    cases value with
    | number n => exact .float n
    | _ => cases h
  | text =>
    cases value with
    | string s => exact .text s
    | _ => cases h
  | bool =>
    cases value with
    | bool b => exact .bool b
    | _ => cases h
  | json => exact .json hv

/-- Only a number of a kind of doubles comes back as anything else than itself. -/
theorem givesBack_decode (hproper : kind = .json → value.Proper) (hv : value ≠ .null)
    (h : kind.encode? value = some cell) : kind.GivesBack value (kind.decode cell) := by
  cases takes_of_encode? hv h with
  | int =>
    obtain ⟨i, hi, rfl⟩ := Option.map_eq_some_iff.mp h
    exact congrArg Json.number (Number.ofInt64_of_toInt64? hi)
  | float n =>
    obtain ⟨x, hx, hnearest⟩ := n.toDouble_nearest
    rw [encode?, hx] at h
    cases h
    exact ⟨x, rfl, hx, hnearest⟩
  | text =>
    cases h
    rfl
  | bool b =>
    cases h
    cases b <;> rfl
  | json =>
    cases h
    exact decode_text (hproper rfl)

/-- What a field of JSON values gives back is read from its text. -/
theorem proper_of_decode (h : json.decode (.text value.text) = value) : value.Proper := by
  rw [decode] at h
  cases hread : Json.read value.text with
  | ok found =>
    rw [hread] at h
    exact Json.read_text_iff.mp (hread.trans (congrArg Except.ok h))
  | error e =>
    rw [hread] at h
    exact h ▸ Json.proper_string value.text

end FieldKind

/-! ## Fields -/

namespace Field

variable {f : Field} {value : Json} {cell : SqlValue}

theorem encode_isOk_iff : (∃ cell, f.encode value = .ok cell) ↔ f.Takes value := by
  constructor
  · intro ⟨cell, h⟩
    rcases encode_gives h with ⟨rfl, _⟩ | ⟨hv, hcell⟩
    · rw [encode, if_pos (Json.isNull_iff.mpr rfl)] at h
      split at h
      next hnullable => exact .inl ⟨rfl, hnullable⟩
      · cases h
    · exact .inr (FieldKind.takes_of_encode? hv hcell)
  · intro h
    rcases h with ⟨rfl, hnullable⟩ | htakes
    · exact ⟨.null, by rw [encode, if_pos (Json.isNull_iff.mpr rfl), if_pos hnullable]⟩
    · obtain ⟨cell, hcell⟩ := FieldKind.encode?_of_takes htakes
      have hfull : ¬ value.isNull := fun hnull => htakes.ne_null (Json.isNull_iff.mp hnull)
      exact ⟨cell, by rw [encode, if_neg hfull, hcell]⟩

/-- What a field encoded comes back. -/
theorem givesBack_of_encode (hproper : f.kind = .json → value.Proper)
    (h : f.encode value = .ok cell) :
    f.kind.GivesBack value (f.kind.decode cell) := by
  rcases encode_gives h with ⟨rfl, rfl⟩ | ⟨hv, hcell⟩
  · cases f.kind <;> rfl
  · exact FieldKind.givesBack_decode hproper hv hcell

/-- The cell of a value that can be read is encoded from what it is decoded as. -/
theorem encode_decode_of_proper (hproper : f.kind = .json → value.Proper)
    (h : f.encode value = .ok cell) :
    f.encode (f.kind.decode cell) = .ok cell := by
  have hback := givesBack_of_encode hproper h
  unfold FieldKind.GivesBack at hback
  split at hback
  next n hkind =>
    obtain ⟨x, hshown, hx, _⟩ := hback
    have hcell : f.kind.encode? (.number n) = some cell := by
      rcases encode_gives h with ⟨hnull, _⟩ | ⟨_, hcell⟩
      · cases hnull
      · exact hcell
    rw [hkind, FieldKind.encode?, hx] at hcell
    cases hcell
    have hfull : ¬ (Json.number (.float x)).isNull := Bool.false_ne_true
    rw [hshown, encode, if_neg hfull, hkind]
    rfl
  · rw [hback]
    exact h

/-- A JSON value that is given back, or whose cell is encoded again from what it is decoded as, is
read from its text. -/
theorem proper_of_back (hkind : f.kind = .json) (hencode : f.encode value = .ok cell)
    (h : f.kind.decode cell = value) : value.Proper := by
  rw [hkind] at h
  rcases encode_gives hencode with ⟨rfl, _⟩ | ⟨_, hcell⟩
  · decide
  · rw [show (Column.field f).kind = .json from hkind] at hcell
    cases hcell
    exact FieldKind.proper_of_decode h

/-- A field encodes exactly the values that it takes. It gives them back, but a field of JSON values
only those that are read from their text: they are nested less than 128 deep, with each key once in an
object, and with doubles that are read back from their text. The cells of those values are the ones
that a field encodes again after it decoded them. -/
theorem decode_undoes_encode (f : Field) :
    (∀ value, (∃ cell, f.encode value = .ok cell) ↔ f.Takes value) ∧
    (∀ value cell, f.encode value = .ok cell →
      (f.kind.GivesBack value (f.kind.decode cell) ↔ (f.kind = .json → value.Proper))) ∧
    (∀ cell, f.encode (f.kind.decode cell) = .ok cell ↔
      ∃ value, (f.kind = .json → value.Proper) ∧ f.encode value = .ok cell) ∧
    ∀ value, Json.read value.text = .ok value ↔ value.Proper := by
  refine ⟨fun value => encode_isOk_iff, fun value cell h => ?_, fun cell => ?_,
    fun value => Json.read_text_iff⟩
  · refine ⟨fun hback hkind => proper_of_back hkind h ?_, fun hproper =>
    givesBack_of_encode hproper h⟩
    unfold FieldKind.GivesBack at hback
    split at hback
    next hfloat => cases hkind.symm.trans hfloat
    next => exact hback
  · exact ⟨fun h => ⟨_, fun hkind => proper_of_back hkind h rfl, h⟩,
      fun ⟨value, hproper, h⟩ => encode_decode_of_proper hproper h⟩

/-- An address with nested members, escapes and the largest unsigned word. -/
def address : Json := .object [("street", .string "\"Rue\"\\\n1"),
  ("at", .array [.object [("z", .null), ("a", .bool true)],
    .number (.integer 18446744073709551615 (by decide))])]

/-- An address is given back with its members in order. -/
theorem address_given_back :
    address.Proper ∧ (plain "home" .json).encode address = .ok (.text address.text) ∧
      FieldKind.json.decode (.text address.text) = address := by
  have hproper : address.Proper := by decide
  have hencode : (plain "home" .json).encode address = .ok (.text address.text) := rfl
  exact ⟨hproper, hencode, ((decode_undoes_encode _).2.1 _ _ hencode).mpr fun _ => hproper⟩

end Field

end RecordStore
