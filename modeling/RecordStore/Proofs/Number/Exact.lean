import RecordStore.Proofs.Number.Rounding
import RecordStore.Number.Basic

/-!
# Numbers as doubles

Every number has a finite double next to it. Whether an integer equals that double depends on the
integer alone: it does exactly if some double has the same value. Doubles of the same value are the
same but for the sign of zero.
-/

namespace RecordStore

/-! ## Rounding stays in range -/

theorem roundHalfEven_bounds (num den : Nat) :
    num / den ≤ roundHalfEven num den ∧ roundHalfEven num den ≤ num / den + 1 := by
  have hbit : num / den % 2 < 2 := Nat.mod_lt _ (by decide)
  simp only [roundHalfEven]
  split
  · omega
  · split <;> omega

theorem log2_lt {k n : Nat} (hk : 0 < k) (h : n < twoTo k) : n.log2 < k := by
  by_cases hzero : n = 0
  · rw [hzero, Nat.log2_zero]
    exact hk
  · exact (Nat.log2_lt hzero).mpr h

/-- The leading bits of a quotient, rounded, are a mantissa or the power of two above all mantissas. -/
theorem rounded_le {num den shift : Nat} (h : (num / den).log2 < 53 + shift) :
    roundHalfEven num (den * twoTo shift) ≤ twoTo 53 := by
  have hhigh := (roundHalfEven_bounds num (den * twoTo shift)).2
  have hlt : num / den < twoTo 53 * twoTo shift := by
    rw [← twoTo_add]
    by_cases hzero : num / den = 0
    · rw [hzero]
      exact twoTo_pos _
    · exact (Nat.log2_lt hzero).mp h
  have hquotient : num / (den * twoTo shift) < twoTo 53 := by
    rw [← Nat.div_div_eq_div_mul]
    exact Nat.div_lt_of_lt_mul (by rwa [Nat.mul_comm])
  omega

theorem le_rounded {num den shift : Nat} (hq : num / den ≠ 0) (h : 52 + shift ≤ (num / den).log2) :
    twoTo 52 ≤ roundHalfEven num (den * twoTo shift) := by
  have hlow := (roundHalfEven_bounds num (den * twoTo shift)).1
  have hle : twoTo 52 * twoTo shift ≤ num / den := by
    rw [← twoTo_add]
    exact Nat.le_trans (twoTo_le h) (Nat.log2_self_le hq)
  have hquotient : twoTo 52 ≤ num / (den * twoTo shift) := by
    rw [← Nat.div_div_eq_div_mul]
    exact (Nat.le_div_iff_mul_le (twoTo_pos shift)).mpr hle
  omega

/-- A quotient is rounded to a finite double exactly if the step of its mantissa is one of a double,
and stays one where rounding leads to the next power of two. -/
theorem Double.ofUnits_finite_iff {num den shift : Nat} (hs : (num / den).log2 - 52 = shift)
    (negative : Bool) : (∃ x, ofUnits negative num den = .finite x) ↔
      shift < 2045 ∨ shift = 2045 ∧ roundHalfEven num (den * twoTo shift) < twoTo 53 := by
  have hhigh : roundHalfEven num (den * twoTo shift) ≤ twoTo 53 := rounded_le (by omega)
  have hlow : twoTo 52 ≤ roundHalfEven num (den * twoTo shift) ∨ shift = 0 := by
    by_cases hsmall : shift = 0
    · exact .inr hsmall
    · refine .inl (le_rounded (fun hzero => ?_) (by omega))
      rw [hzero] at hs
      exact hsmall (hs.symm.trans rfl)
  have hbeyond : ¬ ∃ x, infinity negative = finite x := by
    rintro ⟨x, hx⟩
    cases hx
  simp only [ofUnits, hs]
  by_cases hcarried : roundHalfEven num (den * twoTo shift) = twoTo 53
  · simp only [if_pos hcarried]
    split
    next h => exact iff_of_true ⟨_, rfl⟩ (.inl h.2.1)
    next h =>
      refine iff_of_false hbeyond fun hfits => h ⟨by decide, ?_, .inl (Nat.le_refl _)⟩
      omega
  · simp only [if_neg hcarried]
    split
    next h => exact iff_of_true ⟨_, rfl⟩ (by omega)
    next h => exact iff_of_false hbeyond fun hfits => h ⟨by omega, by omega, hlow⟩

/-- A quotient well below the largest double is rounded to a finite double. -/
theorem Double.ofUnits_finite {num den : Nat} (h : num / den < twoTo 2097) (negative : Bool) :
    ∃ x, ofUnits negative num den = .finite x := by
  have hlog : (num / den).log2 < 2097 := log2_lt (by decide) h
  exact (ofUnits_finite_iff rfl negative).mpr (.inl (by omega))

theorem Double.ofInt_finite {n : Int} (h : Number.InRange n) : ∃ x, ofInt n = .finite x := by
  apply ofUnits_finite
  have habs : n.natAbs < twoTo 64 := by
    unfold Number.InRange at h
    have hpower : twoTo 64 = 18446744073709551616 := by decide
    omega
  have hunits : Binary64.unitsInOne = twoTo 1074 := rfl
  rw [Nat.div_one, hunits]
  calc n.natAbs * twoTo 1074 < twoTo 64 * twoTo 1074 :=
        Nat.mul_lt_mul_of_pos_right habs (twoTo_pos 1074)
    _ = twoTo (64 + 1074) := by rw [twoTo_add]
    _ ≤ twoTo 2097 := twoTo_le (by decide)

theorem Number.toDouble_finite (n : Number) : ∃ x, n.toDouble = .finite x := by
  cases n with
  | integer n h => exact Double.ofInt_finite h
  | float x => exact ⟨x, rfl⟩

/-! ## The value of a double -/

namespace Binary64

theorem natAbs_signedUnits (x : Binary64) : x.signedUnits.natAbs = x.units := by
  unfold signedUnits
  split
  · rw [Int.natAbs_neg, Int.natAbs_natCast]
  · rw [Int.natAbs_natCast]

theorem units_eq_zero {x : Binary64} : x.units = 0 ↔ x.mantissa = 0 := by
  have hpos := twoTo_pos x.shift
  unfold units
  rw [Nat.mul_eq_zero]
  omega

/-- A double is determined by its sign and its magnitude. -/
theorem eq_of_units {x y : Binary64} (hn : x.negative = y.negative) (hu : x.units = y.units) :
    x = y := by
  have hx := Double.ofUnits_exact x Nat.one_pos
  have hy := Double.ofUnits_exact y Nat.one_pos
  rw [hn, hu, hy] at hx
  exact (Double.finite.inj hx).symm

/-- The double without a sign of zero. -/
def normalized (x : Binary64) : Binary64 := if x.mantissa = 0 then .zero false else x

theorem normalized_signedUnits (x : Binary64) : x.normalized.signedUnits = x.signedUnits := by
  unfold normalized
  split
  next hzero =>
    have hunits : x.units = 0 := units_eq_zero.mpr hzero
    have habs := natAbs_signedUnits x
    rw [hunits, Int.natAbs_eq_zero] at habs
    rw [habs]
    rfl
  next => rfl

theorem normalized_normalized (x : Binary64) : x.normalized.normalized = x.normalized := by
  by_cases hzero : x.mantissa = 0
  · have hn : x.normalized = .zero false := if_pos hzero
    rw [hn]
    rfl
  · have hn : x.normalized = x := if_neg hzero
    rw [hn, hn]

/-- Doubles of the same value are the same but for the sign of zero. -/
theorem normalized_eq_iff {x y : Binary64} :
    x.normalized = y.normalized ↔ x.signedUnits = y.signedUnits := by
  constructor
  · intro heq
    rw [← normalized_signedUnits x, heq, normalized_signedUnits]
  · intro hvalue
    have hunits : x.units = y.units := by
      rw [← natAbs_signedUnits, hvalue, natAbs_signedUnits]
    have hzero : x.mantissa = 0 ↔ y.mantissa = 0 := by
      rw [← units_eq_zero, hunits, units_eq_zero]
    unfold normalized
    by_cases hx : x.mantissa = 0
    · rw [if_pos hx, if_pos (hzero.mp hx)]
    · rw [if_neg hx, if_neg fun hy => hx (hzero.mpr hy)]
      apply eq_of_units _ hunits
      have hpos : x.units ≠ 0 := fun h => hx (units_eq_zero.mp h)
      unfold signedUnits at hvalue
      cases hnx : x.negative <;> cases hny : y.negative <;> simp only [hnx, hny] at hvalue ⊢ <;>
        simp at hvalue ⊢ <;> omega

end Binary64

/-! ## Integers that are doubles -/

/-- Some double has the value of the number. -/
def Number.Exact : Number → Prop
  | .integer n _ => ∃ x : Binary64, x.signedUnits = n * Binary64.unitsInOne
  | .float _ => True

/-- The double next to an integer that some double equals is equal to it. -/
theorem Double.ofInt_of_signedUnits {n : Int} {x : Binary64}
    (h : x.signedUnits = n * Binary64.unitsInOne) :
    ∃ y, ofInt n = .finite y ∧ y.signedUnits = n * Binary64.unitsInOne := by
  have hunits : x.units = n.natAbs * Binary64.unitsInOne := by
    rw [← Binary64.natAbs_signedUnits, h, Int.natAbs_mul, Int.natAbs_natCast]
  let y : Binary64 := ⟨n < 0, x.mantissa, x.shift, x.canonical⟩
  have hy : y.units = n.natAbs * Binary64.unitsInOne := hunits
  refine ⟨y, ?_, ?_⟩
  · have hexact := ofUnits_exact y Nat.one_pos
    rw [hy, Nat.mul_one] at hexact
    exact hexact
  · unfold Binary64.signedUnits
    rw [hy, Int.natCast_mul]
    by_cases hn : n < 0
    · rw [if_pos (decide_eq_true hn), ← Int.neg_mul]
      congr 1
      omega
    · rw [if_neg (by simpa [y] using hn)]
      congr 1
      omega

/-- An integer equals the double next to it exactly if some double has its value. -/
theorem Double.compareInt_ofInt {n : Int} (h : Number.InRange n) :
    compareInt n (ofInt n) = .eq ↔ (Number.integer n h).Exact := by
  constructor
  · intro heq
    obtain ⟨x, hx⟩ := ofInt_finite h
    rw [hx, compareInt] at heq
    exact ⟨x, (Std.LawfulEqCmp.eq_of_compare heq).symm⟩
  · rintro ⟨x, hx⟩
    obtain ⟨y, hy, hvalue⟩ := ofInt_of_signedUnits hx
    rw [hy, compareInt, hvalue]
    exact Std.ReflCmp.compare_self

end RecordStore
