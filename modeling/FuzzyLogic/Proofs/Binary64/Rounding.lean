import FuzzyLogic.Number
import FuzzyLogic.Proofs.Binary64.Grid

/-!
# Proofs/Binary64/Rounding — rounding as a function on rationals

`rounded q` is the value of the double nearest to `q`, and `IsValue q` says that `q` is the value of
a double, which rounding leaves alone.  On finite doubles the value of every operation is the rounded
exact result (`value_add`, `value_sub`, `value_mul`, `value_div`), so that a program on doubles is a
formula on rationals with `rounded` around every operation.

What is known of rounding carries over: it is monotone (`rounded_mono`), goes half a step at most
(`abs_rounded_sub_le`), and ends on the grid of its size (`IsValue.exists_steps`).
-/

namespace FuzzyLogic

namespace Binary64

/-- The value of the double nearest to a rational. -/
def rounded (q : ℚ) : ℚ := (Number.quotient q.num q.den).value

/-- The rational is the value of a double. -/
def IsValue (q : ℚ) : Prop := ∃ x : Binary64, x ≠ .nan ∧ x.value = q

variable {x y : Binary64} {p q : ℚ}

theorem isNearest_quotient (q : ℚ) : (Number.quotient q.num q.den).IsNearest q := by
  have hnearest := Magnitude.isNearest_nearest (q.num.natAbs * unitsPerOne) q.den_pos
  have habs : ((q.num.natAbs * unitsPerOne : ℕ) / q.den / unitsPerOne : ℚ) = |q| := by
    rw [Nat.cast_mul, div_right_comm, mul_div_cancel_right₀ _ Magnitude.unitsPerOne_cast_pos.ne',
      Nat.cast_natAbs, Int.cast_abs, ← Nat.abs_cast q.den, ← abs_div, Rat.num_div_den]
  rw [habs] at hnearest
  refine ⟨hnearest, fun h => ?_, fun h => ?_⟩
  · exact decide_eq_true (Rat.num_neg.mpr h)
  · exact decide_eq_false (Rat.num_pos.mpr h).not_gt

/-- Whatever is nearest has the value of the rounding. -/
theorem IsNearest.value_eq_rounded (h : x.IsNearest q) : x.value = rounded q :=
  le_antisymm (h.mono (isNearest_quotient q) le_rfl) ((isNearest_quotient q).mono h le_rfl)

/-! ## Values of doubles -/

theorem isValue_value (hx : x ≠ .nan) : IsValue x.value := ⟨x, hx, rfl⟩

theorem isValue_zero : IsValue 0 := ⟨.zero, by decide, value_zero⟩

theorem isValue_one : IsValue 1 := ⟨.one, by decide, value_one⟩

theorem isValue_two : IsValue 2 := ⟨.two, by decide, value_two⟩

theorem isValue_rounded (q : ℚ) : IsValue (rounded q) := isValue_value (isNearest_quotient q).ne_nan

/-- The first `2⁵³` steps of a grid are values. -/
theorem isValue_steps {j n : ℕ} (hj : j ≤ 1074) (hn : n ≤ 2 ^ 53) (h : (n / 2 ^ j : ℚ) ≤ 4) :
    IsValue (n / 2 ^ j) := by
  obtain ⟨m, hm⟩ := Magnitude.exists_value_eq hj hn h
  exact ⟨.signed false m, nofun, hm⟩

/-- From step `2⁵²` of a grid on the values lie on the grid. -/
theorem IsValue.exists_steps (hq : IsValue q) {j : ℕ} (hj : j ≤ 1074)
    (h : (2 ^ 52 / 2 ^ j : ℚ) ≤ q) : ∃ n : ℕ, q = n / 2 ^ j := by
  obtain ⟨x, hx, rfl⟩ := hq
  obtain ⟨m, hm⟩ := exists_magnitude_of_nonneg hx (le_trans (by positivity) h)
  rw [hm] at h ⊢
  exact Magnitude.exists_eq_value hj h

/-- Values of moderate size can be doubled. -/
theorem IsValue.two_mul (hq : IsValue q) (h₀ : 0 ≤ q) (h₂ : q ≤ 2) : IsValue (2 * q) := by
  obtain ⟨x, hx, rfl⟩ := hq
  exact exists_value_eq_two_mul hx h₀ h₂

/-! ## Rounding -/

/-- **Rounding is monotone.** -/
theorem rounded_mono (h : p ≤ q) : rounded p ≤ rounded q :=
  (isNearest_quotient p).mono (isNearest_quotient q) h

/-- **Values are left alone.** -/
theorem IsValue.rounded_eq (hq : IsValue q) : rounded q = q := by
  obtain ⟨x, hx, rfl⟩ := hq
  exact (isNearest_value hx).value_eq_rounded.symm

/-- The first `2⁵³` steps of a grid are left alone, however they are written. -/
theorem rounded_eq_of_steps {j n : ℕ} (hj : j ≤ 1074) (hn : n ≤ 2 ^ 53) (h : q = n / 2 ^ j)
    (hq : q ≤ 4) : rounded q = q := by
  subst h
  exact (isValue_steps hj hn hq).rounded_eq

@[simp] theorem rounded_zero : rounded 0 = 0 := isValue_zero.rounded_eq

@[simp] theorem rounded_one : rounded 1 = 1 := isValue_one.rounded_eq

theorem IsValue.le_rounded (hp : IsValue p) (h : p ≤ q) : p ≤ rounded q :=
  hp.rounded_eq ▸ rounded_mono h

theorem IsValue.rounded_le (hp : IsValue p) (h : q ≤ p) : rounded q ≤ p :=
  hp.rounded_eq ▸ rounded_mono h

theorem rounded_nonneg (h : 0 ≤ q) : 0 ≤ rounded q := isValue_zero.le_rounded h

theorem rounded_le_one (h : q ≤ 1) : rounded q ≤ 1 := isValue_one.rounded_le h

/-- **Rounding goes half a step at most**, of any grid within whose first `2⁵³` steps it happens. -/
theorem abs_rounded_sub_le {j : ℕ} (hj : 51 ≤ j) (hj' : j ≤ 1074) (h₀ : 0 ≤ q)
    (hq : q ≤ 2 ^ 53 / 2 ^ j) : |rounded q - q| ≤ 1 / 2 ^ (j + 1) := by
  obtain ⟨m, hm, hvalue⟩ := (isNearest_quotient q).exists_magnitude h₀
  rw [rounded, hvalue]
  exact hm.abs_sub_le hj hj' h₀ hq

/-- Results in `[0, 1]` are off by `2⁻⁵⁴` at most. -/
theorem abs_rounded_sub_le_of_le_one (h₀ : 0 ≤ q) (h₁ : q ≤ 1) : |rounded q - q| ≤ 1 / 2 ^ 54 :=
  (isNearest_quotient q).error_le_of_le_one h₀ h₁

/-- Results in `[0, 2]` are off by `2⁻⁵³` at most. -/
theorem abs_rounded_sub_le_of_le_two (h₀ : 0 ≤ q) (h₂ : q ≤ 2) : |rounded q - q| ≤ 1 / 2 ^ 53 :=
  (isNearest_quotient q).error_le_of_le_two h₀ h₂

/-! ## Arithmetic -/

theorem value_add (hx : x.IsFinite) (hy : y.IsFinite) :
    (x + y).value = rounded (x.value + y.value) := (isNearest_add hx hy).value_eq_rounded

theorem value_sub (hx : x.IsFinite) (hy : y.IsFinite) :
    (x - y).value = rounded (x.value - y.value) := (isNearest_sub hx hy).value_eq_rounded

theorem value_div (hx : x.IsFinite) (hy : y.IsFinite) (h0 : y.value ≠ 0) :
    (x / y).value = rounded (x.value / y.value) := (isNearest_div hx hy h0).value_eq_rounded

end Binary64

end FuzzyLogic
