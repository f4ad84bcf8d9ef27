import FuzzyLogic.Decimal.Basic
import FuzzyLogic.Proofs.Binary64.Nearest
import Mathlib.Algebra.Order.Field.Power

/-!
# Proofs/Decimal/Value — decimals as rationals, correctly rounded

`Decimal.value` is the rational a decimal denotes, and **`Decimal.toMagnitude` is the nearest
double** (`isNearest_toMagnitude`).  The place of the leading digit bounds the value from both sides,
so that the two shortcuts for exponents far off are right: below `10⁻⁴⁰⁰` zero is nearest, from
`10⁴⁰⁰` on infinity is.
-/

namespace FuzzyLogic

namespace Decimal

/-- The rational a decimal denotes. -/
def value (d : Decimal) : ℚ := d.digits * 10 ^ d.exponent

theorem value_nonneg (d : Decimal) : 0 ≤ d.value := by
  unfold value
  positivity

theorem lowering_pos (e : ℤ) : 0 < lowering e := Nat.pow_pos (by decide)

theorem raising_pos (e : ℤ) : 0 < raising e := Nat.pow_pos (by decide)

/-- The two factors of a power of ten, one of which is one. -/
theorem raising_div_lowering (e : ℤ) : (raising e / lowering e : ℚ) = 10 ^ e := by
  obtain ⟨n, rfl | rfl⟩ := Int.eq_nat_or_neg e
  · simp [raising, lowering]
  · simp [raising, lowering]

/-- A decimal without digits is zero. -/
theorem value_of_digits_eq_zero {d : Decimal} (h : d.digits = 0) : d.value = 0 := by
  rw [value, h, Nat.cast_zero, zero_mul]

/-- What is rounded is the value. -/
theorem value_eq_quotient (d : Decimal) :
    d.value = (d.digits * raising d.exponent * unitsPerOne : ℕ) / lowering d.exponent /
      unitsPerOne := by
  have hU := Magnitude.unitsPerOne_cast_pos.ne'
  rw [value, ← raising_div_lowering]
  push_cast
  field_simp

/-! ## The leading digit -/

theorem length_digitList_pos (n : ℕ) : 0 < (digitList n).length := Nat.length_toDigits_pos

/-- As many digits as it takes. -/
theorem length_digitList_le_iff {n k : ℕ} (hk : 0 < k) : (digitList n).length ≤ k ↔ n < 10 ^ k :=
  Nat.length_toDigits_le_iff (by decide) hk

theorem lt_pow_length_digitList (n : ℕ) : n < 10 ^ (digitList n).length :=
  (length_digitList_le_iff (length_digitList_pos n)).mp le_rfl

theorem pow_length_digitList_le {n : ℕ} (hn : n ≠ 0) : 10 ^ ((digitList n).length - 1) ≤ n := by
  rcases Nat.eq_zero_or_pos ((digitList n).length - 1) with h | h
  · rw [h, pow_zero]
    exact Nat.one_le_iff_ne_zero.mpr hn
  · refine Nat.le_of_not_lt fun hlt => ?_
    have := (length_digitList_le_iff h).mpr hlt
    omega

theorem value_lt_leading (d : Decimal) : d.value < 10 ^ d.leading := by
  have hlt : (d.digits : ℚ) < 10 ^ (digitList d.digits).length := by
    exact_mod_cast lt_pow_length_digitList d.digits
  rw [value, leading, zpow_add₀ (by norm_num), zpow_natCast]
  exact mul_lt_mul_of_pos_right hlt (by positivity)

theorem leading_le_value {d : Decimal} (h : d.digits ≠ 0) : 10 ^ (d.leading - 1) ≤ d.value := by
  have hle : (10 : ℚ) ^ ((digitList d.digits).length - 1) ≤ d.digits := by
    exact_mod_cast pow_length_digitList_le h
  have hlen := length_digitList_pos d.digits
  have hplace : d.leading - 1 = ((digitList d.digits).length - 1 : ℕ) + d.exponent := by
    unfold leading
    omega
  rw [value, hplace, zpow_add₀ (by norm_num), zpow_natCast]
  exact mul_le_mul_of_nonneg_right hle (by positivity)

end Decimal

/-! ## Far off -/

namespace Magnitude

/-- Up to half the least positive double zero is nearest. -/
theorem isNearest_zero_of_le {q : ℚ} (h : 2 * q * unitsPerOne ≤ 1) : zero.IsNearest q := by
  refine isNearest_of_half (fun n hn => absurd hn (Nat.not_lt_zero n.val)) fun n hn => ?_
  refine ⟨le_of_mul_unitsPerOne_le (h.trans ?_), fun hodd => absurd hodd (by decide)⟩
  have hn' : (units ⟨1, by decide⟩ : ℚ) ≤ n.units := units_cast_le (show 1 ≤ n.val from hn)
  rwa [value_zero, zero_add, value_mul_unitsPerOne]

theorem value_top : top.value = (2 ^ 1024 : ℕ) := value_of_units (by decide +kernel)

/-- From the value infinity counts as on infinity is nearest. -/
theorem isNearest_top_of_le {q : ℚ} (h : top.value ≤ q) : top.IsNearest q := by
  refine isNearest_of_half (fun n hn => ?_) fun n hn => absurd hn (not_lt.mpr (Fin.le_last n))
  have := value_lt_value.mpr hn
  exact ⟨by linarith, fun _ => by linarith⟩

end Magnitude

/-! ## Rounding a decimal -/

namespace Decimal

/-- **A decimal is rounded correctly.** -/
theorem isNearest_toMagnitude (d : Decimal) : d.toMagnitude.IsNearest d.value := by
  unfold toMagnitude
  split_ifs with hlow hhigh
  · refine Magnitude.isNearest_zero_of_le ?_
    rw [Bool.or_eq_true, decide_eq_true_iff, decide_eq_true_iff] at hlow
    rcases hlow with h0 | hlead
    · rw [value_of_digits_eq_zero h0]
      norm_num
    · have hv : d.value < 10 ^ (-400 : ℤ) :=
        d.value_lt_leading.trans_le (zpow_le_zpow_right₀ (by norm_num) hlead)
      have hU : (2 * unitsPerOne : ℚ) ≤ 10 ^ 400 := by
        exact_mod_cast (by decide +kernel : 2 * unitsPerOne ≤ 10 ^ 400)
      calc 2 * d.value * unitsPerOne = d.value * (2 * unitsPerOne) := by ring
        _ ≤ 10 ^ (-400 : ℤ) * 10 ^ 400 := mul_le_mul hv.le hU (by positivity) (by positivity)
        _ = 1 := by norm_num
  · refine Magnitude.isNearest_top_of_le ?_
    rw [Bool.or_eq_true, decide_eq_true_iff, decide_eq_true_iff, not_or] at hlow
    have hpow : (10 : ℚ) ^ 400 ≤ 10 ^ (d.leading - 1) := by
      rw [← zpow_natCast]
      exact zpow_le_zpow_right₀ (by norm_num) (by push_cast; omega)
    have htop : ((2 ^ 1024 : ℕ) : ℚ) ≤ (10 ^ 400 : ℕ) :=
      Nat.cast_le.mpr (by decide +kernel)
    rw [Nat.cast_pow 10] at htop
    calc Magnitude.top.value = (2 ^ 1024 : ℕ) := Magnitude.value_top
      _ ≤ 10 ^ (d.leading - 1) := htop.trans hpow
      _ ≤ d.value := leading_le_value hlow.1
  · rw [value_eq_quotient]
    exact Magnitude.isNearest_nearest _ (lowering_pos _)

end Decimal

end FuzzyLogic
