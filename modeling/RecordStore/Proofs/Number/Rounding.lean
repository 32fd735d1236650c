import RecordStore.Number.Shortest

/-!
# Rounding to doubles

A quotient is rounded to a double that depends on its value only, and a value that some double has is
rounded to that double. Both ends of the range are settled as well: what is below half of the smallest
double becomes zero, and what is beyond all doubles becomes infinite. Decimal numbers are rounded by
the one rule, also where their exponents settle the outcome early, so that the double of a decimal
number depends on its value only.
-/

namespace RecordStore

/-! ## Powers -/

theorem twoTo_pos (n : Nat) : 0 < twoTo n := Nat.two_pow_pos n

theorem twoTo_add (m n : Nat) : twoTo (m + n) = twoTo m * twoTo n := Nat.pow_add 2 m n

theorem twoTo_le {m n : Nat} (h : m ≤ n) : twoTo m ≤ twoTo n := Nat.pow_le_pow_right (by decide) h

theorem tenTo_pos (n : Nat) : 0 < tenTo n := Nat.pow_pos (by decide)

theorem tenTo_add (m n : Nat) : tenTo (m + n) = tenTo m * tenTo n := Nat.pow_add 10 m n

theorem tenTo_le {m n : Nat} (h : m ≤ n) : tenTo m ≤ tenTo n := Nat.pow_le_pow_right (by decide) h

theorem twoTo_three_mul_le (n : Nat) : twoTo (3 * n) ≤ tenTo n := by
  have height : (2 ^ 3) ^ n ≤ 10 ^ n := Nat.pow_le_pow_left (by decide) n
  rwa [← Nat.pow_mul] at height

theorem le_log2 {k n : Nat} (h : twoTo k ≤ n) : k ≤ n.log2 :=
  (Nat.le_log2 (Nat.ne_of_gt (Nat.lt_of_lt_of_le (twoTo_pos k) h))).mpr h

/-! ## Quotients -/

theorem roundHalfEven_scale {k : Nat} (hk : 0 < k) (num den : Nat) :
    roundHalfEven (k * num) (k * den) = roundHalfEven num den := by
  have hr (a b : Nat) : 2 * (k * a) < k * b ↔ 2 * a < b := by
    rw [Nat.mul_left_comm]
    exact Nat.mul_lt_mul_left hk
  have hr' (a b : Nat) : k * b < 2 * (k * a) ↔ b < 2 * a := by
    rw [Nat.mul_left_comm]
    exact Nat.mul_lt_mul_left hk
  simp only [roundHalfEven, Nat.mul_div_mul_left _ _ hk, Nat.mul_mod_mul_left, hr, hr']

theorem roundHalfEven_exact (q : Nat) {den : Nat} (hd : 0 < den) :
    roundHalfEven (q * den) den = q := by
  simp only [roundHalfEven, Nat.mul_div_cancel _ hd, Nat.mul_mod_left]
  rw [if_pos (by omega)]

theorem roundHalfEven_small {num den : Nat} (h : 2 * num < den) : roundHalfEven num den = 0 := by
  have hlt : num < den := by omega
  simp only [roundHalfEven, Nat.div_eq_of_lt hlt, Nat.mod_eq_of_lt hlt, if_pos h]

namespace Double

theorem ofUnits_scale {k : Nat} (hk : 0 < k) (negative : Bool) (num den : Nat) :
    ofUnits negative (k * num) (k * den) = ofUnits negative num den := by
  simp only [ofUnits, Nat.mul_div_mul_left _ _ hk, Nat.mul_assoc, roundHalfEven_scale hk]

/-- Where the rounded quotient is a canonical mantissa, nothing is carried. -/
theorem ofUnits_of_rounded {negative : Bool} {num den mantissa shift : Nat}
    (hs : (num / den).log2 - 52 = shift) (hm : roundHalfEven num (den * twoTo shift) = mantissa)
    (h : mantissa < twoTo 53 ∧ shift ≤ 2045 ∧ (twoTo 52 ≤ mantissa ∨ shift = 0)) :
    ofUnits negative num den = .finite ⟨negative, mantissa, shift, h⟩ := by
  have hcarry : ¬ mantissa = twoTo 53 := Nat.ne_of_lt h.1
  subst hs hm
  simp only [ofUnits, if_neg hcarry, dif_pos h]

/-- The leading bit of a canonical magnitude says where its mantissa ends. -/
theorem log2_units {mantissa shift : Nat} (hm : mantissa < twoTo 53)
    (hlead : twoTo 52 ≤ mantissa ∨ shift = 0) : (mantissa * twoTo shift).log2 - 52 = shift := by
  rcases hlead with hlead | rfl
  · have hne : mantissa ≠ 0 := Nat.ne_of_gt (Nat.lt_of_lt_of_le (twoTo_pos 52) hlead)
    have hpos : mantissa * twoTo shift ≠ 0 := Nat.mul_ne_zero hne (Nat.ne_of_gt (twoTo_pos shift))
    have hlow : 52 + shift ≤ (mantissa * twoTo shift).log2 := by
      apply le_log2
      rw [twoTo_add]
      exact Nat.mul_le_mul_right _ hlead
    have hhigh : (mantissa * twoTo shift).log2 < 53 + shift := by
      rw [Nat.log2_lt hpos]
      exact Nat.lt_of_lt_of_eq (Nat.mul_lt_mul_of_pos_right hm (twoTo_pos shift))
        (twoTo_add 53 shift).symm
    omega
  · rw [show twoTo 0 = 1 from rfl, Nat.mul_one]
    by_cases hzero : mantissa = 0
    · rw [hzero]
      rfl
    · have hlog : mantissa.log2 < 53 := (Nat.log2_lt hzero).mpr hm
      omega

/-- A value that a double has is rounded to that double. -/
theorem ofUnits_exact (x : Binary64) {den : Nat} (hd : 0 < den) :
    ofUnits x.negative (x.units * den) den = .finite x := by
  obtain ⟨negative, mantissa, shift, hm, hs, hlead⟩ := x
  have hq : mantissa * twoTo shift * den / den = mantissa * twoTo shift := Nat.mul_div_cancel _ hd
  refine ofUnits_of_rounded ?_ ?_ ⟨hm, hs, hlead⟩
  · rw [Binary64.units, hq, log2_units hm hlead]
  · rw [Binary64.units, Nat.mul_assoc, Nat.mul_comm (twoTo shift) den]
    exact roundHalfEven_exact mantissa (Nat.mul_pos hd (twoTo_pos shift))

theorem ofUnits_small {num den : Nat} (h : 2 * num < den) (negative : Bool) :
    ofUnits negative num den = .finite (.zero negative) := by
  have hq : num / den = 0 := Nat.div_eq_of_lt (by omega)
  refine ofUnits_of_rounded (by rw [hq]; rfl) ?_ (Binary64.zero negative).canonical
  show roundHalfEven num (den * 1) = 0
  rw [Nat.mul_one, roundHalfEven_small h]

theorem ofUnits_large {num den : Nat} (hd : 0 < den) (h : twoTo 2099 * den ≤ num)
    (negative : Bool) : ofUnits negative num den = .infinity negative := by
  have hq : twoTo 2099 ≤ num / den := (Nat.le_div_iff_mul_le hd).mpr h
  have hlog : 2099 ≤ (num / den).log2 := le_log2 hq
  simp only [ofUnits]
  rw [dif_neg]
  rintro ⟨-, hs, -⟩
  split at hs <;> omega

end Double

/-! ## Decimal numbers -/

namespace Decimal

/-- From `10^309` on there are no finite doubles. -/
theorem large_le {num den : Nat} (h : tenTo 309 * den ≤ num) :
    twoTo 2099 * den ≤ num * Binary64.unitsInOne := by
  have hten : twoTo 1025 ≤ tenTo 309 := by decide +kernel
  calc twoTo 2099 * den = twoTo 1025 * den * Binary64.unitsInOne := by
        rw [show 2099 = 1025 + 1074 from rfl, twoTo_add, Nat.mul_right_comm]
        rfl
    _ ≤ num * Binary64.unitsInOne :=
      Nat.mul_le_mul_right _ (Nat.le_trans (Nat.mul_le_mul_right den hten) h)

/-- What is below the `2^1076`-th part of one is below half of the smallest double. -/
theorem small_lt {num den : Nat} (h : num * twoTo 1076 ≤ den) (hpos : 0 < den) :
    2 * (num * Binary64.unitsInOne) < den := by
  have hfour : num * twoTo 1076 = 4 * (num * Binary64.unitsInOne) := by
    rw [show 1076 = 2 + 1074 from rfl, twoTo_add, Nat.mul_left_comm]
    rfl
  omega

/-- Every decimal number is rounded by the one rule, also where its exponent settles the outcome. -/
theorem toDouble_eq (negative : Bool) (coefficient : Nat) (exponent : Int) :
    toDouble ⟨negative, coefficient, exponent⟩ = .ofUnits negative
      (coefficient * tenTo exponent.toNat * Binary64.unitsInOne) (tenTo (-exponent).toNat) := by
  unfold toDouble
  by_cases hzero : coefficient = 0
  · subst hzero
    rw [if_pos rfl, Nat.zero_mul, Nat.zero_mul, Double.ofUnits_small (tenTo_pos _)]
  · rw [if_neg hzero]
    cases exponent with
    | ofNat e =>
      have hnum : (Int.ofNat e).toNat = e := rfl
      have hden : tenTo (-Int.ofNat e).toNat = 1 := by
        rw [Int.ofNat_eq_natCast, Int.toNat_neg_natCast]
        rfl
      simp only [hnum, hden]
      split
      next he =>
        have hlarge : tenTo 309 * 1 ≤ coefficient * tenTo e := by
          rw [Nat.mul_comm coefficient]
          exact Nat.mul_le_mul (tenTo_le he) (Nat.one_le_iff_ne_zero.mpr hzero)
        rw [Double.ofUnits_large Nat.one_pos (large_le hlarge)]
      next => rfl
    | negSucc e =>
      have hnum : tenTo (Int.negSucc e).toNat = 1 := rfl
      have hden : (-Int.negSucc e).toNat = e + 1 := rfl
      simp only [hnum, hden, Nat.mul_one]
      split
      next he =>
        have hlog : coefficient ≤ twoTo (coefficient.log2 + 1) := Nat.le_of_lt Nat.lt_log2_self
        have hsmall : coefficient * twoTo 1076 ≤ tenTo (e + 1) := calc
          coefficient * twoTo 1076 ≤ twoTo (coefficient.log2 + 1) * twoTo 1076 :=
            Nat.mul_le_mul_right _ hlog
          _ = twoTo (coefficient.log2 + 1077) := by rw [← twoTo_add]
          _ ≤ twoTo (3 * (e + 1)) := twoTo_le he
          _ ≤ tenTo (e + 1) := twoTo_three_mul_le _
        rw [Double.ofUnits_small (small_lt hsmall (tenTo_pos _))]
      next => rfl

/-- Zeros at the end of the coefficient may stand in the exponent as well. -/
theorem toDouble_shift (negative : Bool) (coefficient : Nat) (exponent : Int) (k : Nat) :
    toDouble ⟨negative, coefficient * tenTo k, exponent⟩ =
      toDouble ⟨negative, coefficient, exponent + k⟩ := by
  -- Both quotients are brought to the same denominator.
  have hnum : tenTo k * tenTo exponent.toNat =
      tenTo (min k (-exponent).toNat) * tenTo (exponent + k).toNat := by
    rw [← tenTo_add, ← tenTo_add]
    congr 1
    omega
  have hden : tenTo (-exponent).toNat =
      tenTo (min k (-exponent).toNat) * tenTo (-(exponent + k)).toNat := by
    rw [← tenTo_add]
    congr 1
    omega
  rw [toDouble_eq, toDouble_eq, hden]
  generalize Binary64.unitsInOne = units
  have hquotient : coefficient * tenTo k * tenTo exponent.toNat * units =
      tenTo (min k (-exponent).toNat) * (coefficient * tenTo (exponent + k).toNat * units) := by
    rw [Nat.mul_assoc coefficient, hnum, Nat.mul_left_comm coefficient, Nat.mul_assoc]
  rw [hquotient, Double.ofUnits_scale (tenTo_pos _)]

theorem toDouble_stripZeros (fuel : Nat) (d : Decimal) :
    (stripZeros fuel d).toDouble = d.toDouble ∧ (stripZeros fuel d).negative = d.negative := by
  induction fuel generalizing d with
  | zero => exact ⟨rfl, rfl⟩
  | succ fuel ih =>
    unfold stripZeros
    split
    next hzeros =>
      obtain ⟨hdouble, hnegative⟩ :=
        ih { d with coefficient := d.coefficient / 10, exponent := d.exponent + 1 }
      refine ⟨?_, hnegative⟩
      have hten : d.coefficient / 10 * tenTo 1 = d.coefficient :=
        Nat.div_mul_cancel (Nat.dvd_of_mod_eq_zero hzeros.2)
      rw [hdouble, ← Int.natCast_one, ← toDouble_shift, hten]
    next => exact ⟨rfl, rfl⟩

end Decimal

/-! ## The decimal number of a double -/

namespace Binary64

theorem onGrid?_spec {x : Binary64} {k : Int} {d : Decimal} (h : x.onGrid? k = some d) :
    d.toDouble = .finite x ∧ d.negative = x.negative := by
  simp only [onGrid?] at h
  -- Whichever neighbour comes first, only one that reads back is taken.
  split at h
  all_goals
    simp only at h
    split at h
    next hfirst =>
      cases h
      exact ⟨hfirst, rfl⟩
    next =>
      split at h
      next hsecond =>
        cases h
        exact ⟨hsecond, rfl⟩
      next => cases h

/-- The units of a double as a decimal fraction, for whatever power of two makes up the units. -/
theorem toDouble_fives (x : Binary64) {n : Nat} (h : unitsInOne = twoTo n) :
    Decimal.toDouble ⟨x.negative, x.units * Nat.pow 5 n, -n⟩ = .finite x := by
  have hnum : (-(n : Int)).toNat = 0 := Int.toNat_neg_natCast n
  have hden : (- -(n : Int)).toNat = n := by rw [Int.neg_neg, Int.toNat_natCast]
  have hten : tenTo n = Nat.pow 5 n * twoTo n := Nat.mul_pow 5 2 n
  rw [Decimal.toDouble_eq, hnum, hden, h, show tenTo 0 = 1 from rfl, Nat.mul_one, Nat.mul_assoc,
    ← hten]
  exact Double.ofUnits_exact x (tenTo_pos n)

/-- The value of a double, written out, is rounded to the double. -/
theorem exactDecimal_toDouble (x : Binary64) : x.exactDecimal.toDouble = .finite x := by
  have hfives := toDouble_fives x (show unitsInOne = twoTo 1074 from rfl)
  rw [Int.cast_ofNat_Int] at hfives
  exact hfives

/-- The shortest decimal number of a double reads back as the double. -/
theorem shortest_toDouble (x : Binary64) :
    x.shortest.toDouble = .finite x ∧ x.shortest.negative = x.negative := by
  unfold shortest
  split
  next hzero =>
    obtain ⟨negative, mantissa, shift, hm, hs, hlead⟩ := x
    have hshift : shift = 0 := hlead.resolve_left fun h => by
      rw [show mantissa = 0 from hzero] at h
      exact absurd h (by decide)
    subst hshift
    cases (show mantissa = 0 from hzero)
    exact ⟨rfl, rfl⟩
  next =>
    obtain ⟨hdouble, hnegative⟩ := Decimal.toDouble_stripZeros 1100
      (((List.range 17).findSome? fun (n : Nat) =>
        x.onGrid? (leadingExponent x.units unitsInOne - n)).getD x.exactDecimal)
    rw [hdouble, hnegative]
    cases hfound : (List.range 17).findSome? fun (n : Nat) =>
        x.onGrid? (leadingExponent x.units unitsInOne - n) with
    | none => exact ⟨exactDecimal_toDouble x, rfl⟩
    | some d =>
      obtain ⟨n, _, hd⟩ := List.exists_of_findSome?_eq_some hfound
      exact onGrid?_spec hd

end Binary64

end RecordStore
