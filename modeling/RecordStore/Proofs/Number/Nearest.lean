import RecordStore.Proofs.Number.Exact
import Mathlib.Algebra.Order.Ring.Abs
import Mathlib.Algebra.Order.Field.Basic
import Mathlib.Data.Rat.Cast.Order

/-!
# The nearest double

Rounding takes an integer to a double that no other double is nearer to. Among the doubles with the
step of the rounded one this is what rounding a quotient does. A double with a smaller step lies
below all mantissas of the larger step, and so does the least double with the larger step, which is
not farther from the integer.
-/

namespace RecordStore

/-- The rounded quotient is next to the quotient. -/
theorem roundHalfEven_nearest (num : Nat) {den : Nat} (hd : 0 < den) (k : Nat) :
    ((roundHalfEven num den * den : Nat) - num : Int).natAbs ≤
      ((k * den : Nat) - num : Int).natAbs := by
  have hr : num % den < den := Nat.mod_lt num hd
  have hnum : den * (num / den) + num % den = num := Nat.div_add_mod num den
  have hnext : (num / den + 1) * den = den * (num / den) + den := by
    rw [Nat.add_mul, Nat.one_mul, Nat.mul_comm]
  have hsame : num / den * den = den * (num / den) := Nat.mul_comm _ _
  -- The multiples of the denominator below the quotient are no nearer than its floor, and those
  -- above it no nearer than the next multiple.
  have hk : k * den ≤ den * (num / den) ∨ den * (num / den) + den ≤ k * den := by
    rcases Nat.lt_or_ge (num / den) k with hlt | hle
    · exact .inr (hnext ▸ Nat.mul_le_mul_right den hlt)
    · exact .inl (hsame ▸ Nat.mul_le_mul_right den hle)
  simp only [roundHalfEven]
  split
  · rw [hsame]
    omega
  · split
    · rw [hnext]
      omega
    · rcases Nat.mod_two_eq_zero_or_one (num / den) with hbit | hbit
      · rw [hbit, Nat.add_zero, hsame]
        omega
      · rw [hbit, hnext]
        omega

/-- A magnitude is a multiple of a step, or it lies below all mantissas of that step. -/
theorem Binary64.units_of_step (y : Binary64) (shift : Nat) :
    (∃ k, y.units = k * twoTo shift) ∨ y.shift < shift ∧ y.units < twoTo (52 + shift) := by
  rcases Nat.lt_or_ge y.shift shift with hlt | hle
  · refine .inr ⟨hlt, ?_⟩
    calc y.units < twoTo 53 * twoTo y.shift :=
          Nat.mul_lt_mul_of_pos_right y.canonical.1 (twoTo_pos _)
      _ = twoTo (53 + y.shift) := (twoTo_add _ _).symm
      _ ≤ twoTo (52 + shift) := twoTo_le (by omega)
  · refine .inl ⟨y.mantissa * twoTo (y.shift - shift), ?_⟩
    rw [units, Nat.mul_assoc, ← twoTo_add, Nat.sub_add_cancel hle]

namespace Double

/-- The sign, the mantissa and the step of a rounded quotient. Where rounding leads to the next power
of two, the step is doubled. -/
theorem parts_of_ofUnits {negative : Bool} {num den shift : Nat} {x : Binary64}
    (hs : (num / den).log2 - 52 = shift) (h : ofUnits negative num den = .finite x) :
    x.negative = negative ∧
      (roundHalfEven num (den * twoTo shift) = twoTo 53 ∧ x.mantissa = twoTo 52 ∧
          x.shift = shift + 1 ∨
        x.mantissa = roundHalfEven num (den * twoTo shift) ∧ x.shift = shift) := by
  subst hs
  simp only [ofUnits] at h
  by_cases hcarried : roundHalfEven num (den * twoTo ((num / den).log2 - 52)) = twoTo 53
  · simp only [if_pos hcarried] at h
    split at h
    · cases h
      exact ⟨rfl, .inl ⟨hcarried, rfl, rfl⟩⟩
    · cases h
  · simp only [if_neg hcarried] at h
    split at h
    · cases h
      exact ⟨rfl, .inr ⟨rfl, rfl⟩⟩
    · cases h

/-- The magnitude of a rounded quotient, in steps of the mantissa. -/
theorem units_of_ofUnits {negative : Bool} {num den shift : Nat} {x : Binary64}
    (hs : (num / den).log2 - 52 = shift) (h : ofUnits negative num den = .finite x) :
    x.units = roundHalfEven num (den * twoTo shift) * twoTo shift := by
  rcases (parts_of_ofUnits hs h).2 with ⟨hcarried, hmantissa, hshift⟩ | ⟨hmantissa, hshift⟩
  · rw [Binary64.units, hmantissa, hshift, hcarried, ← twoTo_add, ← twoTo_add]
    congr 1
    omega
  · rw [Binary64.units, hmantissa, hshift]

/-- A quotient is not below the mantissas of its step. -/
theorem le_of_step {num den shift : Nat} (hd : 0 < den) (hs : (num / den).log2 - 52 = shift)
    (hpos : 0 < shift) : twoTo 52 * (den * twoTo shift) ≤ num := by
  have hne : num / den ≠ 0 := by
    intro hzero
    rw [hzero] at hs
    exact absurd (hs.symm.trans rfl) (Nat.ne_of_gt hpos)
  have hquotient : twoTo (52 + shift) ≤ num / den :=
    Nat.le_trans (twoTo_le (by omega)) (Nat.log2_self_le hne)
  have hle := (Nat.le_div_iff_mul_le hd).mp hquotient
  rwa [twoTo_add, Nat.mul_assoc, Nat.mul_comm (twoTo shift) den] at hle

/-- A quotient is rounded to a magnitude that no other is nearer to. -/
theorem ofUnits_nearest {negative : Bool} {num den : Nat} (hd : 0 < den) {x : Binary64}
    (h : ofUnits negative num den = .finite x) (y : Binary64) :
    ((x.units * den : Nat) - num : Int).natAbs ≤ ((y.units * den : Nat) - num : Int).natAbs := by
  obtain ⟨shift, hshift⟩ : ∃ shift, (num / den).log2 - 52 = shift := ⟨_, rfl⟩
  have hstep : 0 < den * twoTo shift := Nat.mul_pos hd (twoTo_pos shift)
  have hscaled : ∀ k : Nat, k * twoTo shift * den = k * (den * twoTo shift) := fun k => by
    rw [Nat.mul_assoc, Nat.mul_comm (twoTo shift) den]
  rw [units_of_ofUnits hshift h, hscaled]
  rcases y.units_of_step shift with ⟨k, hk⟩ | ⟨hlt, hbelow⟩
  · rw [hk, hscaled]
    exact roundHalfEven_nearest num hstep k
  · have hleast := roundHalfEven_nearest num hstep (twoTo 52)
    have hnum := le_of_step hd hshift (Nat.zero_lt_of_lt hlt)
    have hle : y.units * den ≤ twoTo 52 * (den * twoTo shift) := by
      rw [← hscaled, ← twoTo_add]
      exact Nat.mul_le_mul_right den (Nat.le_of_lt hbelow)
    omega

/-- The double next to an integer, counted in units. -/
theorem ofInt_nearest {n : Int} {x : Binary64} (h : ofInt n = .finite x) (y : Binary64) :
    (x.signedUnits - n * Binary64.unitsInOne).natAbs ≤
      (y.signedUnits - n * Binary64.unitsInOne).natAbs := by
  have hx := ofUnits_nearest Nat.one_pos h
  have hnegative := (parts_of_ofUnits rfl h).1
  have hy := hx y
  -- A double of the other sign is farther away than zero.
  have hzero := hx (.zero false)
  have hnone : (Binary64.zero false).units = 0 := rfl
  rw [hnone] at hzero
  simp only [Nat.mul_one] at hy hzero
  have habs : ((n.natAbs * Binary64.unitsInOne : Nat) : Int) =
      if n < 0 then -(n * Binary64.unitsInOne) else n * Binary64.unitsInOne := by
    rw [Int.natCast_mul]
    split
    · rw [Int.ofNat_natAbs_of_nonpos (by omega), Int.neg_mul]
    · rw [Int.natAbs_of_nonneg (by omega)]
  rw [habs] at hy hzero
  have hsign : 0 ≤ ((n.natAbs * Binary64.unitsInOne : Nat) : Int) := Int.natCast_nonneg _
  rw [habs] at hsign
  unfold Binary64.signedUnits
  rw [hnegative]
  generalize n * (Binary64.unitsInOne : Int) = value at *
  by_cases hn : n < 0
  · simp only [if_pos hn, decide_eq_true hn, if_true] at *
    cases y.negative <;> simp only [if_true, Bool.false_eq_true, if_false] <;> omega
  · simp only [if_neg hn, decide_eq_false hn, Bool.false_eq_true, if_false] at *
    cases y.negative <;> simp only [if_true, Bool.false_eq_true, if_false] <;> omega

end Double

/-! ## Values -/

namespace Binary64

/-- The value of a double. -/
def value (x : Binary64) : ℚ := x.signedUnits / unitsInOne

/-- No double is nearer to the number. -/
def Nearest (q : ℚ) (x : Binary64) : Prop := ∀ y : Binary64, |x.value - q| ≤ |y.value - q|

theorem unitsInOne_pos : (0 : ℚ) < unitsInOne := Nat.cast_pos.mpr (twoTo_pos 1074)

theorem value_eq_iff {x : Binary64} {k : Int} :
    x.value = k ↔ x.signedUnits = k * unitsInOne := by
  rw [value, div_eq_iff unitsInOne_pos.ne']
  exact_mod_cast Iff.rfl

/-- One and minus one. -/
def one (negative : Bool) : Binary64 := ⟨negative, twoTo 52, 1022, by decide⟩

/-- Two and minus two. -/
def two (negative : Bool) : Binary64 := ⟨negative, twoTo 52, 1023, by decide⟩

theorem value_zero : (zero false).value = (0 : Int) := value_eq_iff.mpr (by decide +kernel)

theorem value_one (negative : Bool) : (one negative).value = (if negative then -1 else 1 : Int) := by
  cases negative <;> exact value_eq_iff.mpr (by decide +kernel)

theorem value_two (negative : Bool) : (two negative).value = (if negative then -2 else 2 : Int) := by
  cases negative <;> exact value_eq_iff.mpr (by decide +kernel)

theorem value_normalized (x : Binary64) : x.normalized.value = x.value := by
  rw [value, normalized_signedUnits, value]

/-- The distance of a double from an integer, counted in units. -/
theorem abs_value_sub (x : Binary64) (n : Int) :
    |x.value - n| = (x.signedUnits - n * unitsInOne).natAbs / (unitsInOne : ℚ) := by
  have hunits := unitsInOne_pos
  have hdiff : x.value - n = ((x.signedUnits - n * unitsInOne : Int) : ℚ) / unitsInOne := by
    rw [value, Int.cast_sub, Int.cast_mul, Int.cast_natCast, sub_div,
      mul_div_cancel_right₀ _ hunits.ne']
  rw [hdiff, abs_div, abs_of_pos hunits, Nat.cast_natAbs, Int.cast_abs]

end Binary64

/-- Doubles are equal exactly if their values are. -/
theorem Double.compareValue_finite {x y : Binary64} :
    compareValue (.finite x) (.finite y) = .eq ↔ x.value = y.value := by
  rw [compareValue, Std.LawfulEqCmp.compare_eq_iff_eq, Binary64.value, Binary64.value,
    div_left_inj' Binary64.unitsInOne_pos.ne', Int.cast_inj]

namespace Number

/-- The value of a number. -/
def value : Number → ℚ
  | .integer n _ => n
  | .float x => x.value

/-- A number as a double is the double nearest to it. -/
theorem toDouble_nearest (n : Number) : ∃ x, n.toDouble = .finite x ∧ x.Nearest n.value := by
  cases n with
  | float x =>
    refine ⟨x, rfl, fun y => ?_⟩
    rw [value, sub_self, abs_zero]
    exact abs_nonneg _
  | integer n h =>
    obtain ⟨x, hx⟩ := Double.ofInt_finite h
    refine ⟨x, hx, fun y => ?_⟩
    rw [value, Binary64.abs_value_sub, Binary64.abs_value_sub]
    exact div_le_div_of_nonneg_right (Nat.cast_le.mpr (Double.ofInt_nearest hx y))
      Binary64.unitsInOne_pos.le

/-- A number is taken for an integer exactly if it has its value. Both neighbours of the integer are
doubles as well, so that no other integer is rounded to it. -/
theorem compareValue_ofInt {k : Int} {before here after : Binary64}
    (hbefore : before.value = (k - 1 : Int)) (hhere : here.value = k)
    (hafter : after.value = (k + 1 : Int)) (n : Number) :
    n.toDouble.compareValue (.ofInt k) = .eq ↔ n.value = k := by
  obtain ⟨y, hy, hyvalue⟩ := Double.ofInt_of_signedUnits (Binary64.value_eq_iff.mp hhere)
  obtain ⟨x, hx, hnearest⟩ := n.toDouble_nearest
  rw [hx, hy, Double.compareValue_finite, Binary64.value_eq_iff.mpr hyvalue]
  constructor
  · intro hvalue
    cases n with
    | float z =>
      cases hx
      exact hvalue
    | integer n hn =>
      have hlow := hnearest before
      have hhigh := hnearest after
      rw [hvalue, value, hbefore] at hlow
      rw [hvalue, value, hafter] at hhigh
      have hlow' : |k - n| ≤ |k - 1 - n| := by exact_mod_cast hlow
      have hhigh' : |k - n| ≤ |k + 1 - n| := by exact_mod_cast hhigh
      rw [Int.abs_eq_natAbs, Int.abs_eq_natAbs] at hlow' hhigh'
      rw [value, Int.cast_inj]
      omega
  · intro hvalue
    have hleast := hnearest here
    rw [hvalue, hhere, sub_self, abs_zero] at hleast
    exact sub_eq_zero.mp (abs_eq_zero.mp (le_antisymm hleast (abs_nonneg _)))

theorem compareValue_one (n : Number) :
    n.toDouble.compareValue (.ofInt 1) = .eq ↔ n.value = 1 := by
  exact_mod_cast n.compareValue_ofInt Binary64.value_zero (Binary64.value_one false)
    (Binary64.value_two false)

theorem compareValue_minus_one (n : Number) :
    n.toDouble.compareValue (.ofInt (-1)) = .eq ↔ n.value = -1 := by
  exact_mod_cast n.compareValue_ofInt (Binary64.value_two true) (Binary64.value_one true)
    Binary64.value_zero

end Number

end RecordStore
