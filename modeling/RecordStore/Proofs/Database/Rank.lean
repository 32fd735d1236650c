import RecordStore.Proofs.Number.Nearest
import RecordStore.Database.Ordering
import Mathlib.Data.String.Basic
import Mathlib.Data.List.Lex
import Mathlib.Data.Sum.Order
import Mathlib.Order.WithBot

/-!
# Ranks

The order of the database is the order of a line on which every value has its place: nothing comes
first, then numbers by their values, then texts by their bytes. A text is compared by its characters,
and the bytes of UTF-8 put characters, and with them texts, in the same order.
-/

namespace RecordStore

/-! ## Texts and their bytes -/

/-- The bytes of a text in UTF-8. -/
def utf8 (s : String) : List ℕ := s.toUTF8.data.toList.map UInt8.toNat

/-- The bytes of a character in UTF-8. -/
def charUtf8 (c : Char) : List ℕ := (String.utf8EncodeChar c).map UInt8.toNat

theorem utf8_eq (s : String) : utf8 s = s.toList.flatMap charUtf8 := by
  rw [utf8, String.toUTF8_eq_toByteArray, ← String.utf8Encode_toList, List.utf8Encode,
    List.data_toByteArray, List.map_flatMap]
  rfl

theorem charUtf8_ne_nil (c : Char) : charUtf8 c ≠ [] :=
  fun h => String.utf8EncodeChar_ne_nil (List.map_eq_nil_iff.mp h)

theorem char_toNat_lt (c : Char) : c.toNat < 1114112 := by
  rcases c.valid with h | h
  · exact Nat.lt_trans h (by decide)
  · exact h.2

/-- The number of bytes depends on the size of the value; the bytes are its digits. -/
theorem charUtf8_eq (c : Char) : charUtf8 c =
    if c.toNat ≤ 127 then [c.toNat]
    else if c.toNat ≤ 2047 then [192 + c.toNat / 64, 128 + c.toNat % 64]
    else if c.toNat ≤ 65535 then
      [224 + c.toNat / 64 / 64, 128 + c.toNat / 64 % 64, 128 + c.toNat % 64]
    else [240 + c.toNat / 64 / 64 / 64, 128 + c.toNat / 64 / 64 % 64, 128 + c.toNat / 64 % 64,
      128 + c.toNat % 64] := by
  have hc := char_toNat_lt c
  show List.map UInt8.toNat (String.utf8EncodeChar c) = _
  have hvalue : c.val.toNat = c.toNat := rfl
  simp only [String.utf8EncodeChar, hvalue]
  split_ifs <;> simp only [List.map_cons, List.map_nil, UInt8.toNat_ofNat', List.cons.injEq,
    and_true] <;> omega

/-- The bytes of a lesser character are less, whatever stands behind them. The first byte tells the
numbers of bytes apart; where they agree, the bytes are compared like the digits that they are. -/
theorem charUtf8_lt {c d : Char} (h : c < d) (xs ys : List ℕ) :
    charUtf8 c ++ xs < charUtf8 d ++ ys := by
  have hlt : c.toNat < d.toNat := h
  have hd := char_toNat_lt d
  rw [charUtf8_eq, charUtf8_eq]
  split_ifs <;> simp only [List.cons_append, List.cons_lt_cons_iff] <;> omega

theorem flatMap_charUtf8_lt {as bs : List Char} (h : as < bs) :
    as.flatMap charUtf8 < bs.flatMap charUtf8 := by
  induction h with
  | @nil b bs =>
    obtain ⟨byte, bytes, hbytes⟩ := List.exists_cons_of_ne_nil (charUtf8_ne_nil b)
    rw [List.flatMap_nil, List.flatMap_cons, hbytes]
    exact .nil
  | @cons a as bs _ ih =>
    rw [List.flatMap_cons, List.flatMap_cons]
    exact List.append_left_lt ih
  | @rel a as b bs h =>
    rw [List.flatMap_cons, List.flatMap_cons]
    exact charUtf8_lt h _ _

/-- Texts are in the order of their bytes. -/
theorem utf8_strictMono : StrictMono utf8 := by
  intro s t h
  rw [utf8_eq, utf8_eq]
  exact flatMap_charUtf8_lt (String.lt_iff.mp h)

/-! ## Places of values -/

/-- A place in the order of values: nothing, then numbers, then texts as their bytes. -/
abbrev Rank := WithBot (ℚ ⊕ₗ List ℕ)

namespace Rank

def number (q : ℚ) : Rank := (toLex (.inl q) : ℚ ⊕ₗ List ℕ)

def text (s : String) : Rank := (toLex (.inr (utf8 s)) : ℚ ⊕ₗ List ℕ)

theorem number_strictMono : StrictMono number := fun _ _ h =>
  WithBot.coe_lt_coe.mpr (Sum.Lex.inl_lt_inl_iff.mpr h)

theorem text_strictMono : StrictMono text := fun _ _ h =>
  WithBot.coe_lt_coe.mpr (Sum.Lex.inr_lt_inr_iff.mpr (utf8_strictMono h))

theorem number_lt_text (q : ℚ) (s : String) : number q < text s :=
  WithBot.coe_lt_coe.mpr (Sum.Lex.inl_lt_inr _ _)

theorem bot_lt_number (q : ℚ) : ⊥ < number q := WithBot.bot_lt_coe _

theorem bot_lt_text (s : String) : ⊥ < text s := WithBot.bot_lt_coe _

end Rank

namespace SqlValue

/-- The place of a value; a double that is not finite has none and stands where nothing does. -/
def rank : SqlValue → Rank
  | .null => ⊥
  | .integer n => .number n.toInt
  | .real (.finite x) => .number x.value
  | .real _ => ⊥
  | .text s => .text s

/-- Whether the value, if it is a double, is finite. -/
def Finite (v : SqlValue) : Prop := ∀ x, v = .real x → ∃ y, x = .finite y

theorem compare_number_units (a b : Int) : compare (Rank.number (a / Binary64.unitsInOne))
    (.number (b / Binary64.unitsInOne)) = compare a b := by
  have hmono : StrictMono fun a : Int => Rank.number (a / Binary64.unitsInOne) :=
    Rank.number_strictMono.comp fun _ _ h =>
      div_lt_div_of_pos_right (Int.cast_lt.mpr h) Binary64.unitsInOne_pos
  rw [← cmp_eq_compare, ← cmp_eq_compare]
  exact hmono.cmp_map_eq a b

/-- Finite values are in the order of their places. -/
theorem order_eq_compare {a b : SqlValue} (ha : a.Finite) (hb : b.Finite) :
    a.order b = compare a.rank b.rank := by
  have hinteger (n : Int64) : (n.toInt : ℚ) =
      (n.toInt * Binary64.unitsInOne : Int) / Binary64.unitsInOne := by
    rw [Int.cast_mul, Int.cast_natCast, mul_div_cancel_right₀ _ Binary64.unitsInOne_pos.ne']
  cases a with
  | null =>
    cases b with
    | null => exact (compare_eq_iff_eq.mpr rfl).symm
    | integer n => exact (compare_lt_iff_lt.mpr (Rank.bot_lt_number _)).symm
    | real y =>
      obtain ⟨y, rfl⟩ := hb y rfl
      exact (compare_lt_iff_lt.mpr (Rank.bot_lt_number _)).symm
    | text s => exact (compare_lt_iff_lt.mpr (Rank.bot_lt_text _)).symm
  | integer m =>
    cases b with
    | null => exact (compare_gt_iff_gt.mpr (Rank.bot_lt_number _)).symm
    | integer n =>
      have hmono : StrictMono fun a : Int => Rank.number a :=
        Rank.number_strictMono.comp Int.cast_strictMono
      rw [rank, rank, ← cmp_eq_compare, hmono.cmp_map_eq, cmp_eq_compare]
      rfl
    | real y =>
      obtain ⟨y, rfl⟩ := hb y rfl
      rw [rank, rank, hinteger, Binary64.value, compare_number_units]
      rfl
    | text s => exact (compare_lt_iff_lt.mpr (Rank.number_lt_text _ _)).symm
  | real x =>
    obtain ⟨x, rfl⟩ := ha x rfl
    cases b with
    | null => exact (compare_gt_iff_gt.mpr (Rank.bot_lt_number _)).symm
    | integer n =>
      rw [rank, rank, hinteger, Binary64.value, compare_number_units]
      exact (Std.OrientedOrd.eq_swap (α := Int)).symm
    | real y =>
      obtain ⟨y, rfl⟩ := hb y rfl
      rw [rank, rank, Binary64.value, Binary64.value, compare_number_units]
      rfl
    | text s => exact (compare_lt_iff_lt.mpr (Rank.number_lt_text _ _)).symm
  | text s =>
    cases b with
    | null => exact (compare_gt_iff_gt.mpr (Rank.bot_lt_text _)).symm
    | integer n => exact (compare_gt_iff_gt.mpr (Rank.number_lt_text _ _)).symm
    | real y =>
      obtain ⟨y, rfl⟩ := hb y rfl
      exact (compare_gt_iff_gt.mpr (Rank.number_lt_text _ _)).symm
    | text t =>
      rw [rank, rank, ← cmp_eq_compare, Rank.text_strictMono.cmp_map_eq, cmp_eq_compare]
      rfl

end SqlValue

end RecordStore
