import FuzzyLogic.Proofs.Binary64.Exact
import Mathlib.Algebra.Order.Round
import Mathlib.Data.Rat.Floor

/-!
# Proofs/Binary64/Grid — doubles on grids, and how far rounding goes

The grid `j` has `2 ^ j` steps to the one.  Its first `2⁵³` steps are doubles
(`Magnitude.exists_value_eq`), and the doubles from its step `2⁵²` on lie on it
(`Magnitude.exists_eq_value`).

So **rounding goes half a step at most** (`Magnitude.IsNearest.abs_sub_le`): by `2⁻⁵⁴` below one and
by `2⁻⁵³` below two.  What is a whole number of least steps, as sums and differences of doubles are,
is rounded by at most its `2⁻⁵³`th part, however small it is (`Magnitude.IsNearest.abs_sub_le_mul`).
-/

namespace FuzzyLogic

/-- A mantissa that need not be normal, doubled any number of times, is the value of a rank. -/
theorem exists_units (shift : ℕ) {n : ℕ} (hn : n ≤ 2 * binade) :
    ∃ r, units r = n * 2 ^ shift := by
  induction shift generalizing n with
  | zero => exact ⟨0 * binade + n, units_mantissa hn (.inr rfl)⟩
  | succ shift ih =>
    rcases Nat.lt_or_ge n binade with hlt | hge
    · obtain ⟨r, hr⟩ := ih (show 2 * n ≤ 2 * binade by omega)
      exact ⟨r, by rw [hr, pow_succ]; ring⟩
    · exact ⟨_, units_mantissa hn (.inl hge)⟩

/-- Steps of a grid, counted in units. -/
theorem mul_pow_div_unitsPerOne {j shift : ℕ} (h : j + shift = 1074) (n : ℚ) :
    n * 2 ^ shift / unitsPerOne = n / 2 ^ j := by
  rw [unitsPerOne_eq_pow, ← h, Nat.cast_pow, Nat.cast_ofNat, pow_add,
    mul_div_mul_right _ _ (by positivity)]

theorem two_mul_binade : 2 * binade = 2 ^ 53 := by decide

namespace Magnitude

/-! ## Doubles on grids -/

/-- A rank of moderate value is a magnitude. -/
theorem exists_value_eq_units {r : ℕ} (h : (FuzzyLogic.units r : ℚ) / unitsPerOne ≤ 4) :
    ∃ m : Magnitude, m.value = FuzzyLogic.units r / unitsPerOne := by
  have hr : r ≤ topRank := by
    by_contra hlt
    have hfour : four.val < r := lt_of_le_of_lt (by decide) (not_le.mp hlt)
    have hvalue : four.value < FuzzyLogic.units r / unitsPerOne :=
      div_lt_div_of_pos_right (units_cast_lt hfour) unitsPerOne_cast_pos
    rw [value_four] at hvalue
    exact hvalue.not_ge h
  exact ⟨⟨r, Nat.lt_succ_of_le hr⟩, rfl⟩

/-- **The first `2⁵³` steps of a grid are doubles.** -/
theorem exists_value_eq {j n : ℕ} (hj : j ≤ 1074) (hn : n ≤ 2 ^ 53) (h : (n / 2 ^ j : ℚ) ≤ 4) :
    ∃ m : Magnitude, m.value = n / 2 ^ j := by
  obtain ⟨shift, hshift⟩ : ∃ shift, j + shift = 1074 := ⟨1074 - j, by omega⟩
  obtain ⟨r, hr⟩ := exists_units shift (two_mul_binade ▸ hn)
  have hvalue : (FuzzyLogic.units r / unitsPerOne : ℚ) = n / 2 ^ j := by
    rw [hr, Nat.cast_mul, Nat.cast_pow, Nat.cast_ofNat, mul_pow_div_unitsPerOne hshift]
  obtain ⟨m, hm⟩ := exists_value_eq_units (hvalue ▸ h)
  exact ⟨m, hm.trans hvalue⟩

/-- **From step `2⁵²` of a grid on the doubles lie on the grid.** -/
theorem exists_eq_value {m : Magnitude} {j : ℕ} (hj : j ≤ 1074)
    (h : (2 ^ 52 / 2 ^ j : ℚ) ≤ m.value) : ∃ n : ℕ, m.value = n / 2 ^ j := by
  obtain ⟨k, hk⟩ : ∃ k, j + k = 1074 := ⟨1074 - j, by omega⟩
  obtain ⟨shift, n, hval, hn, hnormal⟩ := exists_mantissa m.val
  have hm : m.units = n * 2 ^ shift := by rw [units, hval, units_mantissa hn.le hnormal]
  -- a mantissa below `2⁵³` needs as many doublings as the grid has
  have hle : k ≤ shift := by
    rw [← mul_pow_div_unitsPerOne hk, value, div_le_div_iff_of_pos_right unitsPerOne_cast_pos, hm]
      at h
    have hunits : 2 ^ 52 * 2 ^ k ≤ n * 2 ^ shift := by exact_mod_cast h
    rw [two_mul_binade] at hn
    by_contra hlt
    have hpow : 2 ^ (shift + 1) ≤ 2 ^ k := Nat.pow_le_pow_right (by decide) (by omega)
    have hpos : 0 < 2 ^ shift := by positivity
    rw [pow_succ] at hpow
    nlinarith
  refine ⟨n * 2 ^ (shift - k), ?_⟩
  rw [value, hm, ← mul_pow_div_unitsPerOne hk, ← Nat.sub_add_cancel hle, pow_add,
    Nat.sub_add_cancel hle]
  push_cast
  ring

/-- The double of a magnitude of moderate value is a magnitude. -/
theorem exists_value_eq_two_mul {m : Magnitude} (h : m.value ≤ 2) :
    ∃ n : Magnitude, n.value = 2 * m.value := by
  obtain ⟨shift, n, hval, hn, hnormal⟩ := exists_mantissa m.val
  obtain ⟨r, hr⟩ := exists_units (shift + 1) hn.le
  have hm : m.units = n * 2 ^ shift := by rw [units, hval, units_mantissa hn.le hnormal]
  have hvalue : (FuzzyLogic.units r / unitsPerOne : ℚ) = 2 * m.value := by
    rw [hr, value, hm, pow_succ]
    push_cast
    ring
  obtain ⟨k, hk⟩ := exists_value_eq_units (by rw [hvalue]; linarith)
  exact ⟨k, hk.trans hvalue⟩

/-! ## How far rounding goes -/

/-- Everything nonnegative lies within half a step of a whole number. -/
theorem exists_abs_sub_natCast_le {x : ℚ} (hx : 0 ≤ x) : ∃ n : ℕ, |x - n| ≤ 1 / 2 := by
  have h := abs_sub_round x
  have hround : 0 ≤ round x := by
    have hlow : (-1 : ℚ) < round x := by linarith [(abs_sub_le_iff.mp h).1]
    have : -1 < round x := by exact_mod_cast hlow
    omega
  refine ⟨(round x).toNat, ?_⟩
  rwa [← Int.cast_natCast, Int.toNat_of_nonneg hround]

/-- **Rounding goes half a step at most**, of any grid within whose first `2⁵³` steps it happens. -/
theorem IsNearest.abs_sub_le {m : Magnitude} {q : ℚ} (h : m.IsNearest q) {j : ℕ} (hj : 51 ≤ j)
    (hj' : j ≤ 1074) (h₀ : 0 ≤ q) (hq : q ≤ 2 ^ 53 / 2 ^ j) : |m.value - q| ≤ 1 / 2 ^ (j + 1) := by
  have hpos : (0 : ℚ) < 2 ^ j := by positivity
  obtain ⟨n, hn⟩ := exists_abs_sub_natCast_le (mul_nonneg h₀ hpos.le)
  have hle : n ≤ 2 ^ 53 := by
    rw [le_div_iff₀ hpos] at hq
    have hlt : (n : ℚ) < 2 ^ 53 + 1 := by linarith [(abs_sub_le_iff.mp hn).2]
    have : n < 2 ^ 53 + 1 := by exact_mod_cast hlt
    omega
  have hfour : (n / 2 ^ j : ℚ) ≤ 4 := by
    have hn' : (n : ℚ) ≤ 2 ^ 53 := by exact_mod_cast hle
    have hpow : (2 : ℚ) ^ 51 ≤ 2 ^ j := pow_le_pow_right₀ one_le_two hj
    rw [div_le_iff₀ hpos]
    linarith
  obtain ⟨y, hy⟩ := exists_value_eq hj' hle hfour
  calc |m.value - q| ≤ |y.value - q| := h.abs_le y
    _ = |q * 2 ^ j - n| / 2 ^ j := by
      rw [hy, ← abs_of_pos hpos, ← abs_div, abs_of_pos hpos, sub_div,
        mul_div_cancel_right₀ _ hpos.ne', abs_sub_comm]
    _ ≤ 1 / 2 / 2 ^ j := div_le_div_of_nonneg_right hn hpos.le
    _ = 1 / 2 ^ (j + 1) := by rw [div_div, pow_succ']

/-- Rounding counts whole units with a mantissa of `2⁵²` to `2⁵³` coarse steps, unless they are
few. -/
theorem doublings_bounds {n : ℕ} (h : 2 ^ 53 ≤ n) :
    2 ^ 52 * 2 ^ doublings n ≤ n ∧ n ≤ 2 ^ 53 * 2 ^ doublings n := by
  obtain ⟨hlt, hle⟩ := mantissa_bounds n
  rw [two_mul_binade] at hlt
  have hpos : 0 < 2 ^ doublings n := by positivity
  refine ⟨(Nat.le_div_iff_mul_le hpos).mp (hle.resolve_right fun h0 => ?_),
    ((Nat.div_lt_iff_lt_mul hpos).mp hlt).le⟩
  rw [h0, pow_zero, Nat.div_one] at hlt
  omega

/-- **What is a whole number of least steps is rounded by at most its `2⁻⁵³`th part.** -/
theorem IsNearest.abs_sub_le_mul {m : Magnitude} {q : ℚ} (h : m.IsNearest q) {n : ℕ}
    (hn : q * unitsPerOne = n) (hq : q ≤ 2) : |m.value - q| ≤ q / 2 ^ 53 := by
  obtain rfl : q = n / unitsPerOne := eq_div_of_mul_eq unitsPerOne_cast_pos.ne' hn
  have h₀ : (0 : ℚ) ≤ n / unitsPerOne := div_nonneg n.cast_nonneg unitsPerOne_cast_pos.le
  rcases Nat.lt_or_ge n (2 ^ 53) with hlt | hge
  · -- few least steps are a double
    obtain ⟨r, hr⟩ := exists_units 0 (two_mul_binade ▸ hlt.le)
    rw [pow_zero, mul_one] at hr
    obtain ⟨y, hy⟩ := exists_value_eq_units (by rw [hr]; linarith)
    rw [hr] at hy
    obtain rfl : m = y := h.unique (hy ▸ y.isNearest_value)
    rw [hy, sub_self, abs_zero]
    exact div_nonneg h₀ (by positivity)
  · obtain ⟨hlow, hhigh⟩ := doublings_bounds hge
    have htwo : n ≤ 2 * 2 ^ 1074 := by
      rw [div_le_iff₀ unitsPerOne_cast_pos, unitsPerOne_eq_pow] at hq
      exact_mod_cast hq
    have hshift : doublings n ≤ 1023 := by
      rw [← pow_add] at hlow
      rw [← pow_succ'] at htwo
      have := (Nat.pow_le_pow_iff_right (by decide)).mp (hlow.trans htwo)
      omega
    obtain ⟨j, hj⟩ : ∃ j, j + doublings n = 1074 := ⟨1074 - doublings n, by omega⟩
    have hlow' : (2 ^ 52 / 2 ^ j : ℚ) ≤ n / unitsPerOne := by
      rw [← mul_pow_div_unitsPerOne hj]
      exact div_le_div_of_nonneg_right (by exact_mod_cast hlow) unitsPerOne_cast_pos.le
    have hhigh' : (n / unitsPerOne : ℚ) ≤ 2 ^ 53 / 2 ^ j := by
      rw [← mul_pow_div_unitsPerOne hj]
      exact div_le_div_of_nonneg_right (by exact_mod_cast hhigh) unitsPerOne_cast_pos.le
    calc |m.value - n / unitsPerOne| ≤ 1 / 2 ^ (j + 1) :=
          h.abs_sub_le (by omega) (by omega) h₀ hhigh'
      _ = 2 ^ 52 / 2 ^ j / 2 ^ 53 := by
        rw [pow_succ]
        field_simp
      _ ≤ n / unitsPerOne / 2 ^ 53 := div_le_div_of_nonneg_right hlow' (by positivity)

end Magnitude

namespace Binary64

variable {x y : Binary64} {p q : ℚ}

/-! ## Nonnegative results -/

/-- What a nonnegative rational rounds to is a magnitude. -/
theorem IsNearest.exists_magnitude (h : x.IsNearest q) (hq : 0 ≤ q) :
    ∃ m : Magnitude, m.IsNearest q ∧ x.value = m.value := by
  rcases x with _ | ⟨s, m⟩
  · exact h.elim
  · have hm := h.1
    rw [abs_of_nonneg hq] at hm
    exact ⟨m, hm, h.value_of_nonneg hq⟩

/-- No double is closer. -/
theorem IsNearest.abs_sub_le_abs_sub (h : x.IsNearest q) (hq : 0 ≤ q) (n : Magnitude) :
    |x.value - q| ≤ |n.value - q| := by
  obtain ⟨m, hm, hx⟩ := h.exists_magnitude hq
  rw [hx]
  exact hm.abs_le n

/-- Results in `[0, 1]` are off by `2⁻⁵⁴` at most. -/
theorem IsNearest.error_le_of_le_one (h : x.IsNearest q) (h₀ : 0 ≤ q) (h₁ : q ≤ 1) :
    |x.value - q| ≤ 1 / 2 ^ 54 := by
  obtain ⟨m, hm, hx⟩ := h.exists_magnitude h₀
  rw [hx]
  exact hm.abs_sub_le (by norm_num) (by norm_num) h₀ (by norm_num; exact h₁)

/-- Results in `[0, 2]` are off by `2⁻⁵³` at most. -/
theorem IsNearest.error_le_of_le_two (h : x.IsNearest q) (h₀ : 0 ≤ q) (h₂ : q ≤ 2) :
    |x.value - q| ≤ 1 / 2 ^ 53 := by
  obtain ⟨m, hm, hx⟩ := h.exists_magnitude h₀
  rw [hx]
  exact hm.abs_sub_le (by norm_num) (by norm_num) h₀ (by norm_num; exact h₂)

/-- A rounded result is at most twice the exact one, as zero would be closer otherwise. -/
theorem IsNearest.value_le_two_mul (h : x.IsNearest q) (h₀ : 0 ≤ q) : x.value ≤ 2 * q := by
  have hzero := h.abs_sub_le_abs_sub h₀ .zero
  rw [Magnitude.value_zero, zero_sub, abs_neg, abs_of_nonneg h₀] at hzero
  linarith [(abs_sub_le_iff.mp hzero).1]

/-- A whole number of least steps keeps all but its `2⁻⁵³`th part. -/
theorem IsNearest.mul_le_value (h : x.IsNearest q) {n : ℤ} (hn : q * unitsPerOne = n) (h₀ : 0 ≤ q)
    (h₂ : q ≤ 2) : (1 - 1 / 2 ^ 53) * q ≤ x.value := by
  obtain ⟨m, hm, hx⟩ := h.exists_magnitude h₀
  have hn₀ : 0 ≤ n := by
    rw [← Int.cast_nonneg_iff (R := ℚ), ← hn]
    exact mul_nonneg h₀ Magnitude.unitsPerOne_cast_pos.le
  have hsteps : q * unitsPerOne = (n.toNat : ℕ) := by
    rw [hn, ← Int.cast_natCast, Int.toNat_of_nonneg hn₀]
  rw [hx]
  linarith [(abs_sub_le_iff.mp (hm.abs_sub_le_mul hsteps h₂)).2]

/-- Sums of doubles keep all but their `2⁻⁵³`th part, however small they are. -/
theorem mul_le_value_add (hx : x.IsFinite) (hy : y.IsFinite) (h₀ : 0 ≤ x.value + y.value)
    (h₂ : x.value + y.value ≤ 2) : (1 - 1 / 2 ^ 53) * (x.value + y.value) ≤ (x + y).value := by
  obtain ⟨m, hm⟩ := exists_value_mul x
  obtain ⟨n, hn⟩ := exists_value_mul y
  have hsteps : (x.value + y.value) * unitsPerOne = (m + n : ℤ) := by
    rw [add_mul, hm, hn, Int.cast_add]
  exact (isNearest_add hx hy).mul_le_value hsteps h₀ h₂

/-- And so do differences. -/
theorem mul_le_value_sub (hx : x.IsFinite) (hy : y.IsFinite) (h₀ : y.value ≤ x.value)
    (h₂ : x.value - y.value ≤ 2) : (1 - 1 / 2 ^ 53) * (x.value - y.value) ≤ (x - y).value := by
  obtain ⟨m, hm⟩ := exists_value_mul x
  obtain ⟨n, hn⟩ := exists_value_mul y
  have hsteps : (x.value - y.value) * unitsPerOne = (m - n : ℤ) := by
    rw [sub_mul, hm, hn, Int.cast_sub]
  exact (isNearest_sub hx hy).mul_le_value hsteps (sub_nonneg.mpr h₀) h₂

/-- Differences of doubles in `[0, 2]` are off by `2⁻⁵³` at most. -/
theorem abs_value_sub_sub_le (hx : x.IsFinite) (hy : y.IsFinite) (h₀ : y.value ≤ x.value)
    (h₂ : x.value - y.value ≤ 2) : |(x - y).value - (x.value - y.value)| ≤ 1 / 2 ^ 53 :=
  (isNearest_sub hx hy).error_le_of_le_two (sub_nonneg.mpr h₀) h₂

/-! ## Doubles on grids, with a sign -/

theorem exists_magnitude_of_nonneg (hx : x ≠ .nan) (h₀ : 0 ≤ x.value) :
    ∃ m : Magnitude, x.value = m.value := by
  rcases x with _ | ⟨s, m⟩
  · exact absurd rfl hx
  · exact ⟨m, by rw [← abs_value_signed s m, abs_of_nonneg h₀]⟩

/-- A nonnegative double of moderate value can be doubled. -/
theorem exists_value_eq_two_mul (hx : x ≠ .nan) (h₀ : 0 ≤ x.value) (h₂ : x.value ≤ 2) :
    ∃ y : Binary64, y ≠ .nan ∧ y.value = 2 * x.value := by
  obtain ⟨m, hm⟩ := exists_magnitude_of_nonneg hx h₀
  obtain ⟨n, hn⟩ := Magnitude.exists_value_eq_two_mul (hm ▸ h₂)
  exact ⟨.signed false n, nofun, by rw [value_signed_false, hn, hm]⟩

/-- The doubles from one half on are whole multiples of `2⁻⁵³`. -/
theorem exists_eq_value (hx : x ≠ .nan) (h : 1 / 2 ≤ x.value) : ∃ n : ℕ, x.value = n / 2 ^ 53 := by
  obtain ⟨m, hm⟩ := exists_magnitude_of_nonneg hx (by linarith)
  obtain ⟨n, hn⟩ := Magnitude.exists_eq_value (m := m) (j := 53) (by norm_num)
    (by rw [← hm]; norm_num; linarith)
  exact ⟨n, hm.trans hn⟩

end Binary64

end FuzzyLogic
