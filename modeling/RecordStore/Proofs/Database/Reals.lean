import RecordStore.Database.Reals
import RecordStore.Proofs.Number.Literals
import Mathlib.Tactic.FieldSimp
import Mathlib.Tactic.GCongr
import Mathlib.Tactic.Linarith
import Mathlib.Tactic.NormNum
import Mathlib.Tactic.Ring

/-!
# Reals that the database reads

The real that a decimal number is read as is close to it: every power of ten and every product is off
by no more than the last of its 64 bits. A few of these steps cannot lead beyond the largest double
where the number is below it by more than half of its last bit. The largest double is read back
itself. So every double is read as some finite real from its text.
-/

namespace RecordStore

/-! ## One step -/

theorem roundHalfEven_mul_le (num : Nat) {den : Nat} (hd : 0 < den) :
    2 * (roundHalfEven num den * den) ≤ 2 * num + den ∧
      2 * num ≤ 2 * (roundHalfEven num den * den) + den := by
  have hr : num % den < den := Nat.mod_lt num hd
  have hnum : den * (num / den) + num % den = num := Nat.div_add_mod num den
  have hlow := roundHalfEven_nearest num hd (num / den)
  have hhigh := roundHalfEven_nearest num hd (num / den + 1)
  rw [Nat.mul_comm] at hnum
  rw [Nat.add_mul, Nat.one_mul] at hhigh
  omega

namespace Extended

/-- How much larger the outcome of one rounding may be, and of two. -/
def slack : ℚ := 1 + 1 / 2 ^ 64

theorem one_le_slack : 1 ≤ slack := by norm_num [slack]

theorem slack_nonneg : 0 ≤ slack := zero_le_one.trans one_le_slack

/-- What forty-two roundings make of a number that is half a bit below another one stays below it. -/
theorem slack_le : (2 ^ 54 - 3) * slack ^ 42 ≤ 2 ^ 54 - 2 := by norm_num [slack]

theorem one_pos : 0 < one := twoTo_pos 1400

section
variable {num den : Nat} (hd : 0 < den) (h : twoTo 63 * den ≤ num)
include hd h

/-- A quotient of at least 64 bits is rounded by no more than its last bit. -/
theorem nearest_mul_le : nearest num den * den * twoTo 64 ≤ num * (twoTo 64 + 1) ∧
    num * (twoTo 64 - 1) ≤ nearest num den * den * twoTo 64 := by
  have hle : twoTo 63 ≤ num / den := (Nat.le_div_iff_mul_le hd).mpr h
  have hlog : 63 ≤ (num / den).log2 := le_log2 hle
  obtain ⟨shift, hshift⟩ : ∃ shift, (num / den).log2 = shift + 63 :=
    ⟨_, (Nat.sub_add_cancel hlog).symm⟩
  have hstep : 0 < den * twoTo shift := Nat.mul_pos hd (twoTo_pos shift)
  have hquotient : twoTo (shift + 63) ≤ num / den :=
    hshift ▸ Nat.log2_self_le (Nat.ne_of_gt (Nat.lt_of_lt_of_le (twoTo_pos 63) hle))
  have hnum : den * twoTo shift * twoTo 63 ≤ num := by
    rw [twoTo_add] at hquotient
    have hmul := (Nat.le_div_iff_mul_le hd).mp hquotient
    rwa [Nat.mul_comm den, Nat.mul_right_comm]
  have hnearest : nearest num den * den =
      roundHalfEven num (den * twoTo shift) * (den * twoTo shift) := by
    have hbits : (num / den).log2 + 1 - 64 = shift := by omega
    simp only [nearest, roundedTo, hbits]
    rw [Nat.mul_assoc, Nat.mul_comm (twoTo shift)]
  obtain ⟨hhigh, hlow⟩ := roundHalfEven_mul_le num hstep
  rw [← hnearest] at hhigh hlow
  have htwo : twoTo 64 = 2 * twoTo 63 := rfl
  have hpower : twoTo 63 = 9223372036854775808 := by decide
  rw [hpower] at hnum
  rw [htwo, hpower]
  omega

theorem nearest_le : (nearest num den : ℚ) ≤ num / den * slack := by
  have hden : (0 : ℚ) < den := Nat.cast_pos.mpr hd
  have hmul : (nearest num den * den * 2 ^ 64 : ℚ) ≤ num * (2 ^ 64 + 1) := by
    have hnat := (nearest_mul_le hd h).1
    rw [show twoTo 64 = 2 ^ 64 from rfl] at hnat
    exact_mod_cast hnat
  rw [div_mul_eq_mul_div, le_div_iff₀ hden, slack]
  linarith

theorem le_nearest : (num / den / 2 : ℚ) ≤ nearest num den := by
  have hden : (0 : ℚ) < den := Nat.cast_pos.mpr hd
  have hnat := (nearest_mul_le hd h).2
  have hhalf : num ≤ 2 * (nearest num den * den) := by
    have hpower : twoTo 64 = 18446744073709551616 := by decide
    rw [hpower] at hnat
    omega
  rw [div_div, div_le_iff₀ (by positivity)]
  have hcast : (num : ℚ) ≤ 2 * (nearest num den * den) := by exact_mod_cast hhalf
  linarith

end

theorem repeat_succ (f : Nat → Nat) (n x : Nat) :
    Nat.repeat f (n + 1) x = f (Nat.repeat f n x) := rfl

theorem word_le_one : twoTo 63 ≤ one := twoTo_le (by decide)

/-! ## Powers of ten upwards -/

/-- The powers of ten that numbers are multiplied with. -/
theorem tenPower_bounds (k : Nat) :
    (tenPower k : ℚ) ≤ 10 ^ k * one * slack ∧ (10 ^ k * one / 2 : ℚ) ≤ tenPower k := by
  have hlarge : twoTo 63 * 1 ≤ tenTo k * one := by
    rw [Nat.mul_one]
    exact Nat.le_trans word_le_one (Nat.le_mul_of_pos_left one (tenTo_pos k))
  have hcast : ((tenTo k * one : Nat) : ℚ) / (1 : Nat) = 10 ^ k * one := by
    rw [Nat.cast_mul, Decimal.cast_tenTo, Nat.cast_one, div_one]
  have hle := nearest_le Nat.one_pos hlarge
  have hge := le_nearest Nat.one_pos hlarge
  rw [hcast] at hle hge
  exact ⟨hle, hge⟩

section
variable {k : Nat} (hk : 1 ≤ k) {x : Nat} (hx : one ≤ x)
include hk hx

/-- A number that fills its bits grows by the power of ten, and by two roundings at most. -/
theorem timesTen_bounds : (timesTen k x : ℚ) ≤ x * 10 ^ k * slack ^ 2 ∧ one ≤ timesTen k x := by
  obtain ⟨hpower, hpower'⟩ := tenPower_bounds k
  have hone : (0 : ℚ) < one := Nat.cast_pos.mpr one_pos
  have hten : (10 : ℚ) ≤ 10 ^ k := le_self_pow₀ (by norm_num) (Nat.ne_of_gt hk)
  have hnonneg : (0 : ℚ) ≤ x := Nat.cast_nonneg x
  have hslack := slack_nonneg
  have hgrown : one ≤ tenPower k := by
    have hcast : (one : ℚ) ≤ tenPower k := by
      refine le_trans ?_ hpower'
      generalize (one : ℚ) = unit at hone
      nlinarith
    exact Nat.cast_le.mp hcast
  have hlarge : twoTo 63 * one ≤ x * tenPower k := by
    rw [Nat.mul_comm x]
    exact Nat.mul_le_mul (Nat.le_trans word_le_one hgrown) hx
  have hle := nearest_le one_pos hlarge
  have hge := le_nearest one_pos hlarge
  rw [Nat.cast_mul] at hle hge
  rw [timesTen]
  constructor
  · refine hle.trans ?_
    generalize (one : ℚ) = unit at hone hpower
    calc (x * tenPower k / unit * slack : ℚ)
        ≤ x * (10 ^ k * unit * slack) / unit * slack := by gcongr
      _ = x * 10 ^ k * slack ^ 2 := by field_simp
  · refine Nat.le_trans hx (Nat.cast_le.mp (le_trans ?_ hge))
    generalize (one : ℚ) = unit at hone hpower'
    calc (x : ℚ) ≤ x * 10 ^ k / 4 := by nlinarith
      _ = x * (10 ^ k * unit / 2) / unit / 2 := by
        field_simp
        norm_num
      _ ≤ x * tenPower k / unit / 2 := by gcongr

theorem repeat_bounds (n : Nat) :
    ((Nat.repeat (timesTen k) n x : Nat) : ℚ) ≤ x * 10 ^ (k * n) * slack ^ (2 * n) ∧
      one ≤ Nat.repeat (timesTen k) n x := by
  have hslack := slack_nonneg
  induction n with
  | zero => exact ⟨by simp [Nat.repeat], hx⟩
  | succ n ih =>
    obtain ⟨hle, hlarge⟩ := timesTen_bounds hk ih.2
    rw [repeat_succ]
    refine ⟨hle.trans ?_, hlarge⟩
    calc ((Nat.repeat (timesTen k) n x : Nat) * 10 ^ k * slack ^ 2 : ℚ)
        ≤ x * 10 ^ (k * n) * slack ^ (2 * n) * 10 ^ k * slack ^ 2 := by
          gcongr
          exact ih.1
      _ = x * 10 ^ (k * (n + 1)) * slack ^ (2 * (n + 1)) := by ring

end

/-- No more than twenty-one powers of ten, each rounded twice, make up a power below `10^400`. -/
theorem scale_le {e x : Nat} (hx : one ≤ x) (he : e < 400) :
    (scale 1 e x : ℚ) ≤ x * 10 ^ e * slack ^ 42 := by
  have hslack := slack_nonneg
  obtain ⟨hhundreds, hx₁⟩ := repeat_bounds (k := 100) (by decide) hx (e / 100)
  obtain ⟨htens, hx₂⟩ := repeat_bounds (k := 10) (by decide) hx₁ (e % 100 / 10)
  obtain ⟨hunits, -⟩ := repeat_bounds (k := 1) (by decide) hx₂ (e % 10)
  have hsum : 100 * (e / 100) + 10 * (e % 100 / 10) + 1 * (e % 10) = e := by omega
  have hcount : 2 * (e / 100) + 2 * (e % 100 / 10) + 2 * (e % 10) ≤ 42 := by omega
  refine hunits.trans ((mul_le_mul_of_nonneg_right (mul_le_mul_of_nonneg_right
    (htens.trans (mul_le_mul_of_nonneg_right (mul_le_mul_of_nonneg_right hhundreds
      (by positivity)) (by positivity))) (by positivity)) (by positivity)).trans ?_)
  calc (x * 10 ^ (100 * (e / 100)) * slack ^ (2 * (e / 100)) * 10 ^ (10 * (e % 100 / 10)) *
        slack ^ (2 * (e % 100 / 10)) * 10 ^ (1 * (e % 10)) * slack ^ (2 * (e % 10)) : ℚ)
      = x * 10 ^ (100 * (e / 100) + 10 * (e % 100 / 10) + 1 * (e % 10)) *
          slack ^ (2 * (e / 100) + 2 * (e % 100 / 10) + 2 * (e % 10)) := by ring
    _ ≤ x * 10 ^ e * slack ^ 42 := by
      rw [hsum]
      gcongr
      exact one_le_slack

/-! ## Powers of ten downwards -/

/-- A rounding leads nowhere beyond twice the quotient, and nowhere beyond one where the quotient is
smaller. -/
theorem nearest_le_double (num : Nat) {den : Nat} (hd : 0 < den) :
    nearest num den * den ≤ 2 * num + den := by
  by_cases hlarge : twoTo 63 * den ≤ num
  · have hle := (nearest_mul_le hd hlarge).1
    have hpower : twoTo 64 = 18446744073709551616 := by decide
    rw [hpower] at hle
    omega
  · have hlog : (num / den).log2 + 1 - 64 = 0 := by
      have hquotient : num / den < twoTo 63 := (Nat.div_lt_iff_lt_mul hd).mpr (Nat.not_le.mp hlarge)
      have hsmall := log2_lt (by decide) hquotient
      omega
    have hround := (roundHalfEven_mul_le num hd).1
    rw [nearest, roundedTo, hlog, show twoTo 0 = 1 from rfl, Nat.mul_one, Nat.mul_one]
    omega

theorem tenPower_negative_le (k : Nat) : 4 * tenPower (.negSucc k) ≤ one := by
  have hround := nearest_le_double one (tenTo_pos (k + 1))
  have hten : 10 ≤ tenTo (k + 1) := tenTo_le (m := 1) (by omega)
  have hone : 40 ≤ one := Nat.le_trans (by decide) word_le_one
  rw [tenPower]
  generalize nearest one (tenTo (k + 1)) = found at hround ⊢
  generalize tenTo (k + 1) = ten at hten hround
  refine Nat.le_of_mul_le_mul_right ?_ (Nat.lt_of_lt_of_le (by decide : 0 < 10) hten)
  generalize one = unit at hround hone ⊢
  nlinarith

/-- What bounds a number bounds it also after a division by a power of ten. -/
theorem timesTen_negative_le {bound x : Nat} (k : Nat) (hb : 2 ≤ bound) (hx : x ≤ bound) :
    timesTen (.negSucc k) x ≤ bound := by
  have hround := nearest_le_double (x * tenPower (.negSucc k)) one_pos
  have hpower := tenPower_negative_le k
  rw [timesTen]
  have hone := one_pos
  generalize nearest (x * tenPower (.negSucc k)) one = found at hround ⊢
  generalize tenPower (.negSucc k) = power at hround hpower
  generalize one = unit at hround hpower hone
  have hproduct := Nat.mul_le_mul_left x hpower
  have hscaled : 2 * found * unit ≤ (x + 2) * unit := by linarith
  have hfound := Nat.le_of_mul_le_mul_right hscaled hone
  omega

theorem repeat_le {bound : Nat} {f : Nat → Nat} (hf : ∀ x ≤ bound, f x ≤ bound) (n : Nat) :
    ∀ x ≤ bound, Nat.repeat f n x ≤ bound := by
  induction n with
  | zero => exact fun x hx => hx
  | succ n ih =>
    intro x hx
    rw [repeat_succ]
    exact hf _ (ih x hx)

theorem scale_negative_le {bound x : Nat} (e : Nat) (hb : 2 ≤ bound) (hx : x ≤ bound) :
    scale (-1) e x ≤ bound :=
  repeat_le (fun _ => timesTen_negative_le 0 hb) _ _ <|
    repeat_le (fun _ => timesTen_negative_le 9 hb) _ _ <|
      repeat_le (fun _ => timesTen_negative_le 99 hb) _ _ hx

/-! ## Back to doubles -/

theorem smallestDouble_pos : 0 < smallestDouble := twoTo_pos 326

theorem toDouble_finite {x : Nat} (h : x ≤ largestDouble) (negative : Bool) :
    ∃ y, toDouble negative x = .finite y := by
  have htop : largestDouble + smallestDouble * twoTo 2044 < twoTo 2098 * smallestDouble := by
    decide +kernel
  rw [toDouble, if_neg (Nat.not_lt.mpr h)]
  exact (Double.ofUnits_finite_iff_lt smallestDouble_pos negative).mpr
    (Nat.lt_of_le_of_lt (Nat.add_le_add_right h _) htop)

theorem cast_largestDouble : (largestDouble : ℚ) = (2 ^ 54 - 2) * 2 ^ 970 * one := by
  have hparts : largestDouble = (twoTo 54 - 2) * twoTo 970 * one := by decide +kernel
  have hfirst : ((twoTo 54 - 2 : Nat) : ℚ) = 2 ^ 54 - 2 := by norm_num [twoTo]
  rw [hparts, Nat.cast_mul, Nat.cast_mul, hfirst, Decimal.cast_twoTo]

end Extended

namespace Decimal

/-! ## The word and its exponent -/

theorem fillWord_bounds {fuel coefficient : Nat} (hpos : 0 < coefficient)
    (hfuel : coefficient < twoTo (fuel + 1)) :
    0 < (fillWord fuel coefficient).1 ∧ (fillWord fuel coefficient).1 < twoTo 64 ∧
      (fillWord fuel coefficient).1 * tenTo (fillWord fuel coefficient).2 ≤ coefficient := by
  induction fuel generalizing coefficient with
  | zero =>
    exact ⟨hpos, Nat.lt_of_lt_of_le hfuel (twoTo_le (by decide)), (Nat.mul_one coefficient).le⟩
  | succ fuel ih =>
    rw [fillWord]
    split
    next hlarge =>
      have hten : 0 < coefficient / 10 :=
        Nat.lt_of_lt_of_le (by decide) hlarge
      have hless : coefficient / 10 < twoTo (fuel + 1) := by
        rw [twoTo_add, show twoTo 1 = 2 from rfl] at hfuel
        omega
      obtain ⟨hword, hfits, hle⟩ := ih hten hless
      refine ⟨hword, hfits, ?_⟩
      calc (fillWord fuel (coefficient / 10)).1 * tenTo ((fillWord fuel (coefficient / 10)).2 + 1)
          = (fillWord fuel (coefficient / 10)).1 *
            tenTo (fillWord fuel (coefficient / 10)).2 * 10 := by
            rw [tenTo_add, Nat.mul_assoc]
            rfl
        _ ≤ coefficient / 10 * 10 := Nat.mul_le_mul_right 10 hle
        _ ≤ coefficient := Nat.div_mul_le_self coefficient 10
    next hsmall =>
      have hword : coefficient < twoTo 64 := by
        have hlimit : (maxWord - 9) / 10 * 10 < twoTo 64 := by decide
        omega
      exact ⟨hpos, hword, (Nat.mul_one coefficient).le⟩

theorem settle_value (fuel : Nat) {word : Nat} (hpos : 0 < word) (hfits : word < twoTo 64)
    (exponent : Int) :
    0 < (settle fuel word exponent).1 ∧ (settle fuel word exponent).1 < twoTo 64 ∧
      ((settle fuel word exponent).1 * 10 ^ (settle fuel word exponent).2 : ℚ) =
        word * 10 ^ exponent := by
  induction fuel generalizing word exponent with
  | zero => exact ⟨hpos, hfits, rfl⟩
  | succ fuel ih =>
    rw [settle]
    split
    next hroom =>
      have hmore : word * 10 < twoTo 64 := by
        have hlimit : maxWord / 10 * 10 < twoTo 64 := by decide
        omega
      obtain ⟨hword, hless, hvalue⟩ := ih (Nat.mul_pos hpos (by decide)) hmore (exponent - 1)
      refine ⟨hword, hless, hvalue.trans ?_⟩
      rw [Nat.cast_mul, zpow_sub_one₀ (by norm_num)]
      push_cast
      ring
    next =>
      split
      next hzeros =>
        have hten : word / 10 * 10 = word := Nat.div_mul_cancel (Nat.dvd_of_mod_eq_zero hzeros.2)
        have hfewer : 0 < word / 10 := by omega
        obtain ⟨hword, hless, hvalue⟩ := ih hfewer (by omega) (exponent + 1)
        refine ⟨hword, hless, hvalue.trans ?_⟩
        conv_rhs => rw [← hten]
        rw [Nat.cast_mul, zpow_add_one₀ (by norm_num)]
        push_cast
        ring
      next => exact ⟨hpos, hfits, rfl⟩

/-- The value of a coefficient is not exceeded by that of the word it is cut to. -/
theorem settled_le {coefficient : Nat} (hpos : 0 < coefficient) (exponent : Int) {word : Nat}
    {place : Int} (h : settle 20 (fillWord coefficient.log2 coefficient).1
      (exponent + (fillWord coefficient.log2 coefficient).2) = (word, place)) :
    0 < word ∧ word < twoTo 64 ∧ (word * 10 ^ place : ℚ) ≤ coefficient * 10 ^ exponent := by
  obtain ⟨hword, hfits, hle⟩ := fillWord_bounds hpos Nat.lt_log2_self
  obtain ⟨hsettled, hless, hvalue⟩ :=
    settle_value 20 hword hfits (exponent + (fillWord coefficient.log2 coefficient).2)
  rw [h] at hsettled hless hvalue
  refine ⟨hsettled, hless, hvalue.trans_le ?_⟩
  rw [zpow_add₀ (by norm_num), zpow_natCast, mul_left_comm, mul_comm ((10 : ℚ) ^ exponent),
    ← cast_tenTo, ← Nat.cast_mul]
  gcongr

theorem below_tenTo : ((2 ^ 54 - 3) * 2 ^ 970 : ℚ) < 10 ^ 400 := by
  have hnat : (twoTo 54 - 3) * twoTo 970 < tenTo 400 := by decide +kernel
  have hfirst : ((twoTo 54 - 3 : Nat) : ℚ) = 2 ^ 54 - 3 := by norm_num [twoTo]
  rw [← Nat.cast_lt (α := ℚ), Nat.cast_mul, hfirst, cast_twoTo, cast_tenTo] at hnat
  exact hnat

section
variable {word e : Nat} (hpos : 0 < word) (hvalue : (word * 10 ^ e : ℚ) ≤ (2 ^ 54 - 3) * 2 ^ 970)
include hpos hvalue

theorem place_lt : e < 400 := by
  have hone : (1 : ℚ) ≤ word := by exact_mod_cast hpos
  by_contra hfar
  have hten : (10 : ℚ) ^ 400 ≤ word * 10 ^ e := calc
    (10 : ℚ) ^ 400 ≤ 10 ^ e := pow_le_pow_right₀ (by norm_num) (Nat.not_lt.mp hfar)
    _ ≤ word * 10 ^ e := le_mul_of_one_le_left (by positivity) hone
  exact absurd (hten.trans hvalue) (not_le.mpr below_tenTo)

/-- The half of a bit is more than what all roundings may add. -/
theorem scale_le_largestDouble :
    Extended.scale 1 e (word * Extended.one) ≤ Extended.largestDouble := by
  have hlarge : Extended.one ≤ word * Extended.one := Nat.le_mul_of_pos_left _ hpos
  refine (Nat.cast_le (α := ℚ)).mp ((Extended.scale_le hlarge (place_lt hpos hvalue)).trans ?_)
  rw [Extended.cast_largestDouble, Nat.cast_mul]
  have hunit : (0 : ℚ) ≤ Extended.one := Nat.cast_nonneg _
  have hslack := Extended.slack_nonneg
  generalize (Extended.one : ℚ) = unit at hunit
  have hpositive : (0 : ℚ) ≤ 2 ^ 970 := by positivity
  generalize (2 : ℚ) ^ 970 = power at hvalue hpositive
  calc (word * unit * 10 ^ e * Extended.slack ^ 42 : ℚ)
      = word * 10 ^ e * Extended.slack ^ 42 * unit := by ring
    _ ≤ (2 ^ 54 - 3) * power * Extended.slack ^ 42 * unit := by gcongr
    _ = (2 ^ 54 - 3) * Extended.slack ^ 42 * power * unit := by ring
    _ ≤ (2 ^ 54 - 2) * power * unit := by
      gcongr
      exact Extended.slack_le

end

/-- A number that is below the largest double by more than half of its last bit is read as a finite
real. -/
theorem toReal_finite {d : Decimal} (h : |d.value| ≤ (2 ^ 54 - 3) * 2 ^ 970) :
    ∃ x, d.toReal = .finite x := by
  obtain ⟨negative, coefficient, exponent⟩ := d
  rw [value, abs_signed, abs_of_nonneg (by positivity)] at h
  rw [toReal]
  by_cases hzero : coefficient = 0
  · exact ⟨_, if_pos hzero⟩
  rw [if_neg hzero]
  obtain ⟨word, place, hsettled⟩ : ∃ word place, settle 20 (fillWord coefficient.log2 coefficient).1
      (exponent + (fillWord coefficient.log2 coefficient).2) = (word, place) := ⟨_, _, rfl⟩
  obtain ⟨hword, hless, hle⟩ := settled_le (Nat.pos_of_ne_zero hzero) exponent hsettled
  simp only [hsettled]
  cases place with
  | negSucc e =>
    simp only
    split
    · exact ⟨_, rfl⟩
    · have hlargest : twoTo 64 * Extended.one ≤ Extended.largestDouble := by decide +kernel
      have hsmall : word * Extended.one ≤ Extended.largestDouble :=
        Nat.le_trans (Nat.mul_le_mul_right _ hless.le) hlargest
      exact Extended.toDouble_finite
        (Extended.scale_negative_le _ (by decide +kernel) hsmall) negative
  | ofNat e =>
    have hvalue : (word * 10 ^ e : ℚ) ≤ (2 ^ 54 - 3) * 2 ^ 970 := by
      have hcast := hle.trans h
      rwa [Int.ofNat_eq_natCast, zpow_natCast] at hcast
    simp only [if_neg (Nat.not_le.mpr (place_lt hword hvalue))]
    exact Extended.toDouble_finite (scale_le_largestDouble hword hvalue) negative

end Decimal

/-! ## Doubles -/

namespace Binary64

/-- The largest double of a sign. -/
def largest (negative : Bool) : Binary64 := ⟨negative, twoTo 53 - 1, 2045, by decide⟩

theorem units_largest (negative : Bool) :
    (largest negative).units = (twoTo 53 - 1) * twoTo 2045 := rfl

theorem units_le_largest (x : Binary64) : x.units ≤ (twoTo 53 - 1) * twoTo 2045 := by
  obtain ⟨hm, hs, _⟩ := x.canonical
  exact Nat.mul_le_mul (Nat.le_sub_one_of_lt hm) (twoTo_le hs)

/-- Below the largest magnitude there is the one before it, and what lies below that. -/
theorem units_le_of_ne_largest {x : Binary64} (h : x ≠ largest x.negative) :
    x.units ≤ (twoTo 53 - 2) * twoTo 2045 := by
  rcases x.units_of_step 2045 with ⟨k, hk⟩ | ⟨_, hbelow⟩
  · have hne : x.units ≠ (twoTo 53 - 1) * twoTo 2045 := fun heq =>
      h (eq_of_units rfl (heq.trans (units_largest x.negative).symm))
    have hless := Nat.lt_of_le_of_ne x.units_le_largest hne
    rw [hk] at hless ⊢
    have hmantissa : k < twoTo 53 - 1 := Nat.lt_of_mul_lt_mul_right hless
    exact Nat.mul_le_mul_right _ (Nat.le_sub_one_of_lt hmantissa)
  · rw [twoTo_add] at hbelow
    exact Nat.le_trans hbelow.le (Nat.mul_le_mul_right _ (by decide))

/-- Magnitudes in the units of the largest step. -/
theorem cast_top (mantissa : Nat) :
    ((mantissa * twoTo 2045 : Nat) : ℚ) / unitsInOne = 2 * mantissa * 2 ^ 970 := by
  have hsteps : twoTo 2045 = 2 * twoTo 970 * unitsInOne := by decide +kernel
  have hpos := unitsInOne_pos
  rw [hsteps, Nat.cast_mul, Nat.cast_mul, Nat.cast_mul, Decimal.cast_twoTo]
  generalize (unitsInOne : ℚ) = unit at hpos ⊢
  generalize (2 : ℚ) ^ 970 = power
  field_simp
  ring

/-- What is rounded to a double that is not the largest one is below the largest one by more than half
of its last bit. -/
theorem Rounds.le_of_ne_largest {x : Binary64} {negative : Bool} {p : ℚ}
    (hx : x.Rounds negative (signed negative p)) (hne : x ≠ largest x.negative) :
    p ≤ (2 ^ 54 - 3) * 2 ^ 970 := by
  have hnear := hx.nearest (largest negative)
  have hbefore : ((twoTo 53 - 2 : Nat) : ℚ) = 2 ^ 53 - 2 := by norm_num [twoTo]
  have hlast : ((twoTo 53 - 1 : Nat) : ℚ) = 2 ^ 53 - 1 := by norm_num [twoTo]
  have hlow : x.magnitude ≤ 2 * (2 ^ 53 - 2) * 2 ^ 970 := by
    rw [← hbefore, ← cast_top]
    exact div_le_div_of_nonneg_right (Nat.cast_le.mpr (units_le_of_ne_largest hne)) unitsInOne_pos.le
  have htop : (largest negative).magnitude = 2 * (2 ^ 53 - 1) * 2 ^ 970 := by
    rw [← hlast, ← cast_top, magnitude, units_largest]
  rw [value_sub_signed hx.sign,
    value_sub_signed (show (largest negative).negative = negative from rfl), htop] at hnear
  have hpositive : (0 : ℚ) < 2 ^ 970 := by positivity
  clear htop
  generalize (2 : ℚ) ^ 970 = power at hlow hnear hpositive ⊢
  by_contra hgt
  rw [not_le] at hgt
  rw [abs_of_neg (by linarith)] at hnear
  rcases le_abs.mp hnear with h | h <;> linarith

/-- In a style in which the largest doubles are read as themselves, every double is read as a finite
real from its text. -/
theorem reread_of_largest {style : FloatStyle}
    (hlargest : ∀ negative, (largest negative).reread style = .finite (largest negative))
    (x : Binary64) : ∃ y, x.reread style = .finite y := by
  by_cases h : x = largest x.negative
  · rw [h, hlargest]
    exact ⟨_, rfl⟩
  · obtain ⟨d, htext, hdouble, -⟩ := style.decimalText_text x
    rw [reread, Decimal.ofText?_eq_some_iff.mpr htext]
    refine Decimal.toReal_finite ?_
    have hrounds := Decimal.rounds_toDouble hdouble
    rw [Decimal.value] at hrounds ⊢
    rw [abs_signed, abs_of_nonneg (by positivity)]
    exact hrounds.le_of_ne_largest h

/-- A double in a statement is read as a finite real. -/
theorem reread_finite (x : Binary64) : ∃ y, x.reread .literal = .finite y :=
  reread_of_largest (by decide +kernel) x

/-- The text `58.91625069739192` is read as the double below the one that it was written for. -/
example : reread .literal ⟨false, 8291725146463781, 1027, by decide⟩ =
    .finite ⟨false, 8291725146463780, 1027, by decide⟩ := by
  decide +kernel

/-- A zero is read as itself, so that a double that is read as one of the same value is read as
itself. -/
theorem eq_of_reread (x : Binary64) {y : Binary64} (h : x.reread .literal = .finite y)
    (hsame : y.normalized = x.normalized) : y = x := by
  unfold normalized at hsame
  by_cases hx : x.mantissa = 0
  · obtain ⟨negative, mantissa, shift, hm, hs, hlead⟩ := x
    cases (show mantissa = 0 from hx)
    cases hlead.resolve_left (by decide)
    have hzero : ∀ negative, (zero negative).reread .literal = .finite (zero negative) := by
      decide +kernel
    exact Double.finite.inj (h.symm.trans (hzero negative))
  · rw [if_neg hx] at hsame
    by_cases hy : y.mantissa = 0
    · rw [if_pos hy] at hsame
      exact absurd (congrArg mantissa hsame).symm hx
    · rwa [if_neg hy] at hsame

/-- A double in JSON text is read as a finite real. -/
theorem rereadJson_finite (x : Binary64) : ∃ y, x.reread .json = .finite y :=
  reread_of_largest (by decide +kernel) x

end Binary64

end RecordStore
