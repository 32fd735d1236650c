import RecordStore.Proofs.Number.Nearest
import Mathlib.Algebra.Order.Field.Power
import Mathlib.Tactic.ByContra
import Mathlib.Tactic.Linarith
import Mathlib.Tactic.Positivity
import Mathlib.Tactic.Ring

/-!
# Rounding half to even

The double of a decimal number is the one that the value of the number is rounded to: it has the sign
of the number, no double is nearer to the value, and of two doubles that are equally near it is the one
with the even mantissa. There is one exactly for values below the middle between the largest double and
the next power of two, and it is the only one.
-/

namespace RecordStore

/-- Of two whole numbers that are equally near the even one is taken. -/
theorem roundHalfEven_even {num den k : Nat} (hd : 0 < den) (hk : k ≠ roundHalfEven num den)
    (h : ((k * den : Nat) - num : Int).natAbs =
      ((roundHalfEven num den * den : Nat) - num : Int).natAbs) :
    roundHalfEven num den % 2 = 0 := by
  have hr : num % den < den := Nat.mod_lt num hd
  have hnum : den * (num / den) + num % den = num := Nat.div_add_mod num den
  have hsame : num / den * den = den * (num / den) := Nat.mul_comm _ _
  have hnext : (num / den + 1) * den = den * (num / den) + den := by
    rw [Nat.add_mul, Nat.one_mul, Nat.mul_comm]
  -- The other one is next to the quotient or lies beyond.
  have hk' : k = num / den ∨ k = num / den + 1 ∨ k * den + den ≤ den * (num / den) ∨
      den * (num / den) + den + den ≤ k * den := by
    rcases Nat.lt_trichotomy k (num / den) with hlt | heq | hgt
    · have hle := Nat.mul_le_mul_right den (Nat.succ_le_of_lt hlt)
      rw [Nat.succ_mul, hsame] at hle
      exact .inr (.inr (.inl hle))
    · exact .inl heq
    · rcases Nat.eq_or_lt_of_le (Nat.succ_le_of_lt hgt) with heq | hgt
      · exact .inr (.inl heq.symm)
      · have hle := Nat.mul_le_mul_right den (Nat.succ_le_of_lt hgt)
        rw [Nat.succ_mul, Nat.succ_mul, hsame] at hle
        exact .inr (.inr (.inr hle))
  simp only [roundHalfEven] at hk h ⊢
  split at h
  next hbelow =>
    rw [if_pos hbelow] at hk
    rw [hsame] at h
    rcases hk' with rfl | rfl | hle | hle
    · exact absurd rfl hk
    · rw [hnext] at h
      omega
    · omega
    · omega
  next hbelow =>
    rw [if_neg hbelow] at hk
    split at h
    next habove =>
      rw [if_pos habove] at hk
      rw [hnext] at h
      rcases hk' with rfl | rfl | hle | hle
      · rw [hsame] at h
        omega
      · exact absurd rfl hk
      · omega
      · omega
    next habove =>
      rw [if_neg hbelow, if_neg habove]
      omega

/-- A quotient is rounded below an even number exactly if it is more than a half below it. -/
theorem roundHalfEven_lt_iff {num half n : Nat} (hpos : 0 < half) (hn : n % 2 = 0) :
    roundHalfEven num (2 * half) < n ↔ num + half < n * (2 * half) := by
  have hr : num % (2 * half) < 2 * half := Nat.mod_lt num (by omega)
  have hnum : 2 * half * (num / (2 * half)) + num % (2 * half) = num := Nat.div_add_mod num _
  obtain ⟨hlow, hhigh⟩ := roundHalfEven_bounds num (2 * half)
  rcases Nat.lt_trichotomy (num / (2 * half) + 1) n with hlt | heq | hgt
  · have hle := Nat.mul_le_mul_right (2 * half) (Nat.succ_le_of_lt hlt)
    rw [Nat.succ_mul, Nat.succ_mul, Nat.mul_comm (num / _)] at hle
    exact iff_of_true (by omega) (by omega)
  · -- The quotient is odd, so that a half is rounded up.
    have hproduct : n * (2 * half) = 2 * half * (num / (2 * half)) + 2 * half := by
      rw [← heq, Nat.succ_mul, Nat.mul_comm]
    rw [hproduct]
    simp only [roundHalfEven]
    split
    · exact iff_of_true (by omega) (by omega)
    · split
      · exact iff_of_false (by omega) (by omega)
      · exact iff_of_false (by omega) (by omega)
  · have hle := Nat.mul_le_mul_right (2 * half) (Nat.le_of_lt_succ hgt)
    rw [Nat.mul_comm (num / _)] at hle
    exact iff_of_false (by omega) (by omega)

namespace Double

variable {negative : Bool} {num den : Nat} {x : Binary64}

/-- Of two magnitudes that are equally near to a quotient the one with the even mantissa is taken. -/
theorem ofUnits_even (hd : 0 < den) (h : ofUnits negative num den = .finite x) {y : Binary64}
    (hne : y.units ≠ x.units) (htie : ((y.units * den : Nat) - num : Int).natAbs =
      ((x.units * den : Nat) - num : Int).natAbs) : x.mantissa % 2 = 0 := by
  obtain ⟨shift, hshift⟩ : ∃ shift, (num / den).log2 - 52 = shift := ⟨_, rfl⟩
  have hstep : 0 < den * twoTo shift := Nat.mul_pos hd (twoTo_pos shift)
  have hscaled : ∀ k : Nat, k * twoTo shift * den = k * (den * twoTo shift) := fun k => by
    rw [Nat.mul_assoc, Nat.mul_comm (twoTo shift) den]
  have hunits := units_of_ofUnits hshift h
  rcases (parts_of_ofUnits hshift h).2 with ⟨-, hmantissa, -⟩ | ⟨hmantissa, -⟩
  · rw [hmantissa]
    decide
  rw [hmantissa]
  rw [hunits, hscaled] at htie
  rcases y.units_of_step shift with ⟨k, hk⟩ | ⟨hlt, hbelow⟩
  · rw [hk, hscaled] at htie
    refine roundHalfEven_even hstep (fun heq => hne ?_) htie
    rw [hk, hunits, heq]
  · -- What lies below all mantissas of the step is farther away than the least of them.
    exfalso
    have hleast := roundHalfEven_nearest num hstep (twoTo 52)
    have hnum := le_of_step hd hshift (Nat.zero_lt_of_lt hlt)
    have hless : y.units * den < twoTo 52 * (den * twoTo shift) := by
      rw [← hscaled, ← twoTo_add]
      exact Nat.mul_lt_mul_of_pos_right hbelow hd
    omega

/-- A quotient is rounded to a finite double exactly below the middle between the largest double and
the next power of two. -/
theorem ofUnits_finite_iff_lt (hd : 0 < den) (negative : Bool) :
    (∃ x, ofUnits negative num den = .finite x) ↔
      num + den * twoTo 2044 < twoTo 2098 * den := by
  obtain ⟨shift, hshift⟩ : ∃ shift, (num / den).log2 - 52 = shift := ⟨_, rfl⟩
  rw [ofUnits_finite_iff hshift]
  have hhalf : 0 < den * twoTo 2044 := Nat.mul_pos hd (twoTo_pos _)
  have htop : ∀ k : Nat, twoTo (k + 2044) * den = twoTo k * (den * twoTo 2044) := fun k => by
    rw [twoTo_add, Nat.mul_assoc, Nat.mul_comm den]
  rcases Nat.lt_trichotomy shift 2045 with hlt | heq | hgt
  · have hquotient : num / den < twoTo 2097 :=
      Nat.lt_of_lt_of_le Nat.lt_log2_self (twoTo_le (by omega))
    have hnum := (Nat.div_lt_iff_lt_mul hd).mp hquotient
    rw [show 2097 = 53 + 2044 from rfl, htop] at hnum
    rw [show 2098 = 54 + 2044 from rfl, htop]
    have hfew : twoTo 53 * (den * twoTo 2044) + den * twoTo 2044 ≤ twoTo 54 * (den * twoTo 2044) := by
      rw [← Nat.succ_mul]
      exact Nat.mul_le_mul_right _ (by decide)
    exact iff_of_true (.inl hlt) (by omega)
  · have hlast : den * twoTo 2045 = 2 * (den * twoTo 2044) := by
      rw [show 2045 = 1 + 2044 from rfl, twoTo_add, Nat.mul_left_comm]
      rfl
    have hnext : twoTo 2098 * den = twoTo 53 * (2 * (den * twoTo 2044)) := by
      rw [← hlast, show 2098 = 53 + 2045 from rfl, twoTo_add, Nat.mul_assoc, Nat.mul_comm den]
    rw [heq, hlast, hnext, roundHalfEven_lt_iff hhalf rfl]
    simp only [Nat.lt_irrefl, false_or, true_and]
  · have hstep := le_of_step hd hshift (by omega)
    have hle : twoTo 2098 * den ≤ twoTo 52 * (den * twoTo shift) := by
      rw [show 2098 = 52 + 2046 from rfl, twoTo_add, Nat.mul_assoc, Nat.mul_comm _ den]
      exact Nat.mul_le_mul_left _ (Nat.mul_le_mul_left _ (twoTo_le hgt))
    exact iff_of_false (by omega) (by omega)

end Double

/-! ## Values with a sign -/

/-- The number with a magnitude and a sign. -/
def signed (negative : Bool) (magnitude : ℚ) : ℚ := if negative then -magnitude else magnitude

theorem abs_signed (negative : Bool) (p : ℚ) : |signed negative p| = |p| := by
  cases negative
  · rfl
  · exact abs_neg p

theorem abs_signed_sub_signed (negative : Bool) (p q : ℚ) :
    |signed negative p - signed negative q| = |p - q| := by
  cases negative
  · rfl
  · rw [signed, signed, if_pos rfl, if_pos rfl, neg_sub_neg, abs_sub_comm]

/-- Numbers of different signs are as far from each other as their magnitudes together. -/
theorem abs_signed_not_sub_signed (negative : Bool) (p q : ℚ) :
    |signed (!negative) p - signed negative q| = |p + q| := by
  cases negative
  · rw [signed, signed, Bool.not_false, if_pos rfl, if_neg Bool.false_ne_true, ← neg_add', abs_neg]
  · rw [signed, signed, Bool.not_true, if_pos rfl, if_neg Bool.false_ne_true, sub_neg_eq_add]

namespace Binary64

/-- The magnitude of a double. -/
def magnitude (x : Binary64) : ℚ := x.units / unitsInOne

theorem magnitude_nonneg (x : Binary64) : 0 ≤ x.magnitude :=
  div_nonneg (Nat.cast_nonneg _) unitsInOne_pos.le

theorem value_eq_signed (x : Binary64) : x.value = signed x.negative x.magnitude := by
  rw [value, signedUnits, signed, magnitude]
  split
  · rw [Int.cast_neg, Int.cast_natCast, neg_div]
  · rw [Int.cast_natCast]

theorem magnitude_inj {x y : Binary64} : x.magnitude = y.magnitude ↔ x.units = y.units := by
  rw [magnitude, magnitude, div_left_inj' unitsInOne_pos.ne', Nat.cast_inj]

/-- The distance of a double from a quotient of units, counted in the denominator. -/
theorem abs_magnitude_sub (x : Binary64) (num : Nat) {den : Nat} (hd : 0 < den) :
    |x.magnitude - num / (den * unitsInOne : Nat)| =
      ((x.units * den : Nat) - num : Int).natAbs / (den * unitsInOne : Nat) := by
  have hden : (0 : ℚ) < den := Nat.cast_pos.mpr hd
  have hunits := unitsInOne_pos
  have hdiff : x.magnitude - num / (den * unitsInOne : Nat) =
      (((x.units * den : Nat) - num : Int) : ℚ) / (den * unitsInOne : Nat) := by
    rw [magnitude, Nat.cast_mul, Int.cast_sub, Int.cast_natCast, Int.cast_natCast, Nat.cast_mul,
      sub_div, mul_comm (x.units : ℚ), mul_div_mul_left _ _ hden.ne']
  have hpos : (0 : ℚ) < (den * unitsInOne : Nat) := by
    rw [Nat.cast_mul]
    exact mul_pos hden hunits
  rw [hdiff, abs_div, abs_of_pos hpos, Nat.cast_natAbs, Int.cast_abs]

/-- The double that a number with a sign is rounded to. The sign says which zero is meant, and the
range ends in the middle between the largest double and the next power of two. -/
structure Rounds (x : Binary64) (negative : Bool) (q : ℚ) : Prop where
  inRange : |q| < 2 ^ 1024 - 2 ^ 970
  sign : x.negative = negative
  nearest : x.Nearest q
  even : ∀ y : Binary64, y.value ≠ x.value → |y.value - q| = |x.value - q| → x.mantissa % 2 = 0

theorem value_sub_signed {x : Binary64} {negative : Bool} (hs : x.negative = negative) (p : ℚ) :
    |x.value - signed negative p| = |x.magnitude - p| := by
  rw [value_eq_signed, hs, abs_signed_sub_signed]

/-- Magnitudes are not farther from each other than values. -/
theorem magnitude_sub_le (y : Binary64) (negative : Bool) {p : ℚ} (hp : 0 ≤ p) :
    |y.magnitude - p| ≤ |y.value - signed negative p| := by
  have hle := abs_abs_sub_abs_le_abs_sub y.value (signed negative p)
  have hvalue : |y.value| = y.magnitude := by
    rw [value_eq_signed, abs_signed, abs_of_nonneg y.magnitude_nonneg]
  rwa [hvalue, abs_signed, abs_of_nonneg hp] at hle

/-- What is rounded in magnitude is rounded with its sign. -/
theorem Rounds.of_magnitude {x : Binary64} {negative : Bool} {p : ℚ} (hp : 0 ≤ p)
    (hrange : p < 2 ^ 1024 - 2 ^ 970) (hs : x.negative = negative)
    (hnearest : ∀ y : Binary64, |x.magnitude - p| ≤ |y.magnitude - p|)
    (heven : ∀ y : Binary64, y.magnitude ≠ x.magnitude →
      |y.magnitude - p| = |x.magnitude - p| → x.mantissa % 2 = 0) :
    x.Rounds negative (signed negative p) := by
  refine ⟨by rwa [abs_signed, abs_of_nonneg hp], hs, fun y => ?_, fun y hne htie => ?_⟩
  · rw [value_sub_signed hs]
    exact (hnearest y).trans (y.magnitude_sub_le negative hp)
  rw [value_sub_signed hs] at htie
  have hle := y.magnitude_sub_le negative hp
  by_cases hmagnitude : y.magnitude = x.magnitude
  · -- Doubles with different signs are equally far from zero only, which one of them would have to be.
    exfalso
    have hnegative : y.negative = !negative := by
      rw [Bool.eq_not]
      intro hsame
      exact hne (by rw [value_eq_signed, value_eq_signed, hsame, hs, hmagnitude])
    have hpos : 0 < x.magnitude := by
      refine lt_of_le_of_ne x.magnitude_nonneg fun hzero => hne ?_
      rw [value_eq_signed, value_eq_signed, hmagnitude, ← hzero]
      simp [signed]
    have hzero := hnearest (.zero false)
    have hnone : (zero false).magnitude = 0 := by
      rw [magnitude, show (zero false).units = 0 from rfl, Nat.cast_zero, zero_div]
    rw [value_eq_signed, hnegative, hmagnitude, abs_signed_not_sub_signed,
      abs_of_nonneg (add_nonneg hpos.le hp)] at htie
    rw [hnone, zero_sub, abs_neg, abs_of_nonneg hp] at hzero
    linarith
  · exact heven y hmagnitude (le_antisymm (hle.trans_eq htie) (hnearest y))

end Binary64

namespace Binary64

/-- The double behind one with an even mantissa. -/
def next (x : Binary64) (h : x.mantissa % 2 = 0) : Binary64 :=
  ⟨x.negative, x.mantissa + 1, x.shift, by
    obtain ⟨hm, hs, hlead⟩ := x.canonical
    have htop : twoTo 53 = 9007199254740992 := rfl
    exact ⟨by omega, hs, hlead.imp_left fun h => by omega⟩⟩

theorem units_next (x : Binary64) (h : x.mantissa % 2 = 0) :
    (x.next h).units = x.units + twoTo x.shift := Nat.succ_mul _ _

/-- No magnitude lies between that of a double and the next one. -/
theorem units_next_le {x y : Binary64} (h : x.mantissa % 2 = 0) (hlt : x.units < y.units) :
    (x.next h).units ≤ y.units := by
  rcases y.units_of_step x.shift with ⟨k, hk⟩ | ⟨hshift, hbelow⟩
  · rw [hk] at hlt ⊢
    exact Nat.mul_le_mul_right _ (Nat.lt_of_mul_lt_mul_right hlt)
  · -- A step of `x` that another double has not reached leaves `x` above it.
    have hlead : twoTo 52 ≤ x.mantissa := x.canonical.2.2.resolve_right (by omega)
    have hle : twoTo (52 + x.shift) ≤ x.units := by
      rw [twoTo_add]
      exact Nat.mul_le_mul_right _ hlead
    omega

/-- Of two doubles that a number is rounded to, neither is greater. -/
theorem Rounds.units_le {x y : Binary64} {negative : Bool} {q : ℚ} (hx : x.Rounds negative q)
    (hy : y.Rounds negative q) : y.units ≤ x.units := by
  by_contra hlt
  rw [Nat.not_le] at hlt
  obtain ⟨p, rfl⟩ : ∃ p, q = signed negative p :=
    ⟨signed negative q, by cases negative <;> simp [signed]⟩
  have hmagnitude : ∀ {a b : Binary64}, a.units < b.units → a.magnitude < b.magnitude := fun hunits =>
    div_lt_div_of_pos_right (Nat.cast_lt.mpr hunits) unitsInOne_pos
  have hvalue : y.value ≠ x.value := by
    intro heq
    rw [value_eq_signed, value_eq_signed, hx.sign, hy.sign] at heq
    have hsame := congrArg abs heq
    rw [abs_signed, abs_signed, abs_of_nonneg y.magnitude_nonneg,
      abs_of_nonneg x.magnitude_nonneg] at hsame
    exact (hmagnitude hlt).ne' hsame
  have htie := le_antisymm (hy.nearest x) (hx.nearest y)
  have hxeven := hx.even y hvalue htie
  have hyeven := hy.even x hvalue.symm htie.symm
  have hnext := hx.nearest (x.next hxeven)
  rw [value_sub_signed hx.sign, value_sub_signed hy.sign] at htie
  rw [value_sub_signed hx.sign,
    value_sub_signed (show (x.next hxeven).negative = _ from hx.sign)] at hnext
  rcases Nat.eq_or_lt_of_le (units_next_le hxeven hlt) with heq | hgt
  · have hsame : x.next hxeven = y := eq_of_units (hx.sign.trans hy.sign.symm) heq
    have hodd : y.mantissa = x.mantissa + 1 := hsame ▸ rfl
    omega
  · -- The next double lies between two doubles that are equally far away, and so is nearer.
    have hlow := hmagnitude (show x.units < (x.next hxeven).units by
      rw [units_next]
      exact Nat.lt_add_of_pos_right (twoTo_pos _))
    have hhigh := hmagnitude hgt
    rcases abs_eq_abs.mp htie with hsame | hopposite
    · linarith
    · have hless : |(x.next hxeven).magnitude - p| < |x.magnitude - p| := by
        rw [abs_of_nonpos (by linarith : x.magnitude - p ≤ 0)]
        exact abs_lt.mpr ⟨by linarith, by linarith⟩
      exact absurd hless (not_lt.mpr hnext)

/-- A number is rounded to one double. -/
theorem Rounds.unique {x y : Binary64} {negative : Bool} {q : ℚ} (hx : x.Rounds negative q)
    (hy : y.Rounds negative q) : x = y :=
  eq_of_units (hx.sign.trans hy.sign.symm) (Nat.le_antisymm (hy.units_le hx) (hx.units_le hy))

end Binary64

namespace Decimal

/-- The value of a decimal number. -/
def value (d : Decimal) : ℚ := signed d.negative (d.coefficient * 10 ^ d.exponent)

theorem cast_twoTo (n : Nat) : (twoTo n : ℚ) = 2 ^ n := Nat.cast_pow 2 n

theorem cast_tenTo (n : Nat) : (tenTo n : ℚ) = 10 ^ n := Nat.cast_pow 10 n

/-- The magnitude of a decimal number as the quotient of units that is rounded. -/
theorem magnitude_eq (coefficient : Nat) (exponent : Int) :
    (coefficient * 10 ^ exponent : ℚ) =
      (coefficient * tenTo exponent.toNat * Binary64.unitsInOne : Nat) /
        (tenTo (-exponent).toNat * Binary64.unitsInOne : Nat) := by
  have hunits := Binary64.unitsInOne_pos
  generalize Binary64.unitsInOne = units at hunits ⊢
  rw [Nat.cast_mul, Nat.cast_mul _ units, mul_div_mul_right _ _ hunits.ne', Nat.cast_mul, cast_tenTo,
    cast_tenTo, mul_div_assoc]
  congr 1
  cases exponent with
  | ofNat n => simp
  | negSucc n => simp [zpow_negSucc]

/-- Where rounding stays in range, in units and in ones. -/
theorem range_iff {num den : Nat} (hd : 0 < den) :
    num + den * twoTo 2044 < twoTo 2098 * den ↔
      (num : ℚ) / (den * Binary64.unitsInOne : Nat) < 2 ^ 1024 - 2 ^ 970 := by
  have hunits : (Binary64.unitsInOne : ℚ) = 2 ^ 1074 := cast_twoTo 1074
  have hpos : (0 : ℚ) < den * 2 ^ 1074 := by positivity
  have htop : (2 : ℚ) ^ 2098 = 2 ^ 1024 * 2 ^ 1074 := pow_add 2 1024 1074
  have hhalf : (2 : ℚ) ^ 2044 = 2 ^ 970 * 2 ^ 1074 := pow_add 2 970 1074
  have hscaled : ∀ a b c d : ℚ, (a - b) * (d * c) = a * c * d - d * (b * c) := fun a b c d => by ring
  have hrange : (2 ^ 1024 - 2 ^ 970 : ℚ) * (den * 2 ^ 1074) = 2 ^ 2098 * den - den * 2 ^ 2044 := by
    rw [htop, hhalf, hscaled]
  rw [Nat.cast_mul, hunits, div_lt_iff₀ hpos, hrange, lt_sub_iff_add_lt, ← Nat.cast_lt (α := ℚ),
    Nat.cast_add, Nat.cast_mul, Nat.cast_mul, cast_twoTo, cast_twoTo]

variable {d : Decimal} {x : Binary64}

theorem toDouble_finite_iff (d : Decimal) :
    (∃ x, d.toDouble = .finite x) ↔ |d.value| < 2 ^ 1024 - 2 ^ 970 := by
  obtain ⟨negative, coefficient, exponent⟩ := d
  have hpos : (0 : ℚ) ≤ coefficient * 10 ^ exponent := by positivity
  rw [toDouble_eq, Double.ofUnits_finite_iff_lt (tenTo_pos _), range_iff (tenTo_pos _), ← magnitude_eq,
    value, abs_signed, abs_of_nonneg hpos]

theorem rounds_toDouble (h : d.toDouble = .finite x) : x.Rounds d.negative d.value := by
  have hrange := (toDouble_finite_iff d).mp ⟨x, h⟩
  obtain ⟨negative, coefficient, exponent⟩ := d
  have hpos : (0 : ℚ) ≤ coefficient * 10 ^ exponent := by positivity
  rw [value, abs_signed, abs_of_nonneg hpos] at hrange
  rw [toDouble_eq] at h
  have hden := tenTo_pos (-exponent).toNat
  have hcast : (0 : ℚ) < (tenTo (-exponent).toNat * Binary64.unitsInOne : Nat) :=
    Nat.cast_pos.mpr (Nat.mul_pos hden (twoTo_pos 1074))
  refine .of_magnitude hpos hrange (Double.parts_of_ofUnits rfl h).1 (fun y => ?_) fun y hne htie => ?_
  · rw [magnitude_eq, x.abs_magnitude_sub _ hden, y.abs_magnitude_sub _ hden]
    exact div_le_div_of_nonneg_right (Nat.cast_le.mpr (Double.ofUnits_nearest hden h y)) hcast.le
  · rw [magnitude_eq, x.abs_magnitude_sub _ hden, y.abs_magnitude_sub _ hden,
      div_left_inj' hcast.ne', Nat.cast_inj] at htie
    exact Double.ofUnits_even hden h (fun heq => hne (Binary64.magnitude_inj.mpr heq)) htie

/-- The double of a decimal number is the one that its value is rounded to. -/
theorem toDouble_eq_finite_iff : d.toDouble = .finite x ↔ x.Rounds d.negative d.value := by
  refine ⟨rounds_toDouble, fun hx => ?_⟩
  obtain ⟨y, hy⟩ := (toDouble_finite_iff d).mpr hx.inRange
  rw [hy, hx.unique (rounds_toDouble hy)]

end Decimal

end RecordStore
