import FuzzyLogic.Binary64.Arithmetic
import FuzzyLogic.Proofs.Binary64.Nearest

/-!
# Proofs/Binary64/Exact — doubles as rationals, arithmetic as rounded exact arithmetic

`Binary64.value` is the rational a double denotes.  Comparison of doubles is comparison of values
(`le_iff_value`), and on finite doubles every operation is **the exact result, rounded to nearest**:
`isNearest_add`, `isNearest_sub`, `isNearest_mul`, `isNearest_div`.

What is needed of rounding from here on is that it is monotone and keeps doubles as they are: a
result lies above every double that the exact result lies above (`IsNearest.value_ge`), and below
every one it lies below (`IsNearest.value_le`).
-/

namespace FuzzyLogic

namespace Magnitude

theorem value_eq_zero {m : Magnitude} : m.value = 0 ↔ m = zero := by
  rw [← value_zero, value_inj]

theorem value_pos {m : Magnitude} : 0 < m.value ↔ m ≠ zero := by
  rw [(value_nonneg m).lt_iff_ne, ne_comm, ne_eq, value_eq_zero]

theorem units_pos {m : Magnitude} (h : m ≠ zero) : 0 < m.units := by
  refine Nat.pos_of_ne_zero fun h0 => h (value_eq_zero.mp ?_)
  rw [value, h0, Nat.cast_zero, zero_div]

/-! ## Exact results -/

theorem isNearest_sum (a b : Magnitude) :
    (nearest (a.units + b.units) 1).IsNearest (a.value + b.value) := by
  have h := isNearest_nearest (a.units + b.units) Nat.one_pos
  rwa [Nat.cast_one, div_one, Nat.cast_add, add_div] at h

theorem isNearest_gap {a b : Magnitude} (h : b.units ≤ a.units) :
    (nearest (a.units - b.units) 1).IsNearest (a.value - b.value) := by
  have hn := isNearest_nearest (a.units - b.units) Nat.one_pos
  rwa [Nat.cast_one, div_one, Nat.cast_sub h, sub_div] at hn

theorem isNearest_product (a b : Magnitude) :
    (nearest (a.units * b.units) unitsPerOne).IsNearest (a.value * b.value) := by
  have h := isNearest_nearest (a.units * b.units) unitsPerOne_pos
  rwa [Nat.cast_mul, div_div, mul_div_mul_comm] at h

theorem isNearest_ratio (a : Magnitude) {b : Magnitude} (hb : b ≠ zero) :
    (nearest (a.units * unitsPerOne) b.units).IsNearest (a.value / b.value) := by
  have h := isNearest_nearest (a.units * unitsPerOne) (units_pos hb)
  have hU := unitsPerOne_cast_pos.ne'
  rwa [Nat.cast_mul, mul_div_right_comm, mul_div_cancel_right₀ _ hU,
    ← div_div_div_cancel_right₀ hU] at h

end Magnitude

namespace Binary64

/-! ## Values -/

/-- The rational a double denotes; infinities count as `±2¹⁰²⁴`. -/
def value : Binary64 → ℚ
  | .nan => 0
  | .signed s m => if s then -m.value else m.value

/-- Neither NaN nor infinite. -/
def IsFinite : Binary64 → Prop
  | .nan => False
  | .signed _ m => m < .top

@[simp] theorem value_signed_false (m : Magnitude) : (signed false m).value = m.value := rfl

@[simp] theorem value_signed_true (m : Magnitude) : (signed true m).value = -m.value := rfl

@[simp] theorem value_zero : zero.value = 0 := Magnitude.value_zero

@[simp] theorem value_one : one.value = 1 := Magnitude.value_one

@[simp] theorem value_two : two.value = 2 := Magnitude.value_two

theorem abs_value_signed (s : Bool) (m : Magnitude) : |(signed s m).value| = m.value := by
  cases s <;> simp [abs_of_nonneg m.value_nonneg]

theorem IsFinite.ne_nan {x : Binary64} (h : x.IsFinite) : x ≠ .nan := by
  rintro rfl
  exact h

/-- A double of moderate size is finite. -/
theorem isFinite_of_abs_le {x : Binary64} (hx : x ≠ .nan) (h : |x.value| ≤ 4) : x.IsFinite := by
  rcases x with _ | ⟨s, m⟩
  · exact absurd rfl hx
  · rw [abs_value_signed, ← Magnitude.value_four, Magnitude.value_le_value] at h
    exact lt_of_le_of_lt h (by decide)

/-! ## Comparison -/

theorem order_signed (s : Bool) (m : Magnitude) :
    (signed s m).order = some (if s then -(m.val : ℤ) else m.val) := by
  cases s <;> rfl

/-- Signed ranks compare as values do. -/
theorem signedRank_le_iff (s t : Bool) (m n : Magnitude) :
    (if s then -(m.val : ℤ) else m.val) ≤ (if t then -(n.val : ℤ) else n.val) ↔
      (signed s m).value ≤ (signed t n).value := by
  have hm := m.value_nonneg
  have hn := n.value_nonneg
  have hle : ∀ a b : Magnitude, (a.val : ℤ) ≤ b.val ↔ a.value ≤ b.value := by
    intro a b
    rw [Magnitude.value_le_value, Int.ofNat_le]
    rfl
  cases s <;> cases t
  · exact hle m n
  · -- a magnitude is at most an opposite one only when both are zero
    have hzero : (m.val : ℤ) ≤ -n.val ↔ (m.val : ℤ) ≤ 0 ∧ (n.val : ℤ) ≤ 0 := by omega
    have hm0 := hle m .zero
    have hn0 := hle n .zero
    rw [Magnitude.value_zero] at hm0 hn0
    simp only [Bool.false_eq_true, if_false, if_true, value_signed_false, value_signed_true]
    rw [hzero, show (0 : ℤ) = (Magnitude.zero.val : ℤ) from rfl, hm0, hn0]
    constructor
    · rintro ⟨h₁, h₂⟩
      linarith
    · exact fun h => ⟨by linarith, by linarith⟩
  · simp only [Bool.false_eq_true, if_false, if_true, value_signed_false, value_signed_true]
    exact iff_of_true (by omega) (by linarith)
  · simp only [if_true, value_signed_true, neg_le_neg_iff]
    exact hle n m

/-- **Doubles compare as their values do.** -/
theorem le_iff_value {x y : Binary64} (hx : x ≠ .nan) (hy : y ≠ .nan) :
    x.le y = true ↔ x.value ≤ y.value := by
  rcases x with _ | ⟨s, m⟩
  · exact absurd rfl hx
  rcases y with _ | ⟨t, n⟩
  · exact absurd rfl hy
  rw [le_iff_of_order (order_signed s m) (order_signed t n), signedRank_le_iff]

theorem ne_nan_of_le {x y : Binary64} (h : x.le y = true) : x ≠ .nan ∧ y ≠ .nan := by
  rcases x with _ | ⟨_ | _, _⟩ <;> rcases y with _ | ⟨_ | _, _⟩ <;> simp_all [le, related, order]

/-- A degree is a double whose value lies in `[0, 1]`. -/
theorem isDegree_iff {x : Binary64} : x.isDegree = true ↔ x ≠ .nan ∧ 0 ≤ x.value ∧ x.value ≤ 1 := by
  have hzero : zero ≠ .nan := by decide
  have hone : one ≠ .nan := by decide
  rw [isDegree, Bool.and_eq_true]
  constructor
  · rintro ⟨h₀, h₁⟩
    have hx := (ne_nan_of_le h₀).2
    rw [le_iff_value hzero hx, value_zero] at h₀
    rw [le_iff_value hx hone, value_one] at h₁
    exact ⟨hx, h₀, h₁⟩
  · rintro ⟨hx, h₀, h₁⟩
    rw [le_iff_value hzero hx, le_iff_value hx hone, value_zero, value_one]
    exact ⟨h₀, h₁⟩

/-! ## Rounding with a sign -/

/-- The double of the nearest magnitude and the sign of the rational; the sign of a zero is free. -/
def IsNearest : Binary64 → ℚ → Prop
  | .nan, _ => False
  | .signed s m, q => m.IsNearest |q| ∧ (q < 0 → s = true) ∧ (0 < q → s = false)

theorem IsNearest.ne_nan {x : Binary64} {q : ℚ} (h : x.IsNearest q) : x ≠ .nan := by
  rintro rfl
  exact h

theorem IsNearest.value_of_nonneg {s : Bool} {m : Magnitude} {q : ℚ}
    (h : (signed s m).IsNearest q) (hq : 0 ≤ q) : (signed s m).value = m.value := by
  obtain ⟨hm, -, hpos⟩ := h
  rcases hq.eq_or_lt with rfl | hq
  · rw [abs_zero, ← Magnitude.value_zero] at hm
    obtain rfl := hm.unique (Magnitude.isNearest_value _)
    cases s <;> simp
  · rw [hpos hq, value_signed_false]

theorem IsNearest.value_of_nonpos {s : Bool} {m : Magnitude} {q : ℚ}
    (h : (signed s m).IsNearest q) (hq : q ≤ 0) : (signed s m).value = -m.value := by
  obtain ⟨hm, hneg, -⟩ := h
  rcases hq.eq_or_lt with rfl | hq
  · rw [abs_zero, ← Magnitude.value_zero] at hm
    obtain rfl := hm.unique (Magnitude.isNearest_value _)
    cases s <;> simp
  · rw [hneg hq, value_signed_true]

/-- **Rounding is monotone**, signs included. -/
theorem IsNearest.mono {x y : Binary64} {p q : ℚ} (hx : x.IsNearest p) (hy : y.IsNearest q)
    (hpq : p ≤ q) : x.value ≤ y.value := by
  rcases x with _ | ⟨s, m⟩
  · exact hx.elim
  rcases y with _ | ⟨t, n⟩
  · exact hy.elim
  rcases le_total 0 p with hp | hp
  · rw [hx.value_of_nonneg hp, hy.value_of_nonneg (hp.trans hpq), Magnitude.value_le_value]
    exact hx.1.mono hy.1 (abs_le_abs_of_nonneg hp hpq)
  rcases le_total q 0 with hq | hq
  · rw [hx.value_of_nonpos hp, hy.value_of_nonpos hq, neg_le_neg_iff, Magnitude.value_le_value]
    exact hy.1.mono hx.1 (by rw [abs_of_nonpos hp, abs_of_nonpos hq]; linarith)
  · rw [hx.value_of_nonpos hp, hy.value_of_nonneg hq]
    linarith [m.value_nonneg, n.value_nonneg]

/-- A double is nearest to its own value. -/
theorem isNearest_value {x : Binary64} (hx : x ≠ .nan) : x.IsNearest x.value := by
  rcases x with _ | ⟨s, m⟩
  · exact absurd rfl hx
  have hm := m.value_nonneg
  refine ⟨by rw [abs_value_signed]; exact m.isNearest_value, ?_, ?_⟩ <;> cases s <;> simp [hm]

/-- **Rounding stays above every double that the exact result lies above.** -/
theorem IsNearest.value_ge {x y : Binary64} {q : ℚ} (hx : x.IsNearest q) (hy : y ≠ .nan)
    (h : y.value ≤ q) : y.value ≤ x.value :=
  (isNearest_value hy).mono hx h

/-- **Rounding stays below every double that the exact result lies below.** -/
theorem IsNearest.value_le {x y : Binary64} {q : ℚ} (hx : x.IsNearest q) (hy : y ≠ .nan)
    (h : q ≤ y.value) : x.value ≤ y.value :=
  hx.mono (isNearest_value hy) h

/-- What is a double already is not changed by rounding. -/
theorem IsNearest.value_eq {x y : Binary64} {q : ℚ} (hx : x.IsNearest q) (hy : y ≠ .nan)
    (h : q = y.value) : x.value = y.value :=
  le_antisymm (hx.value_le hy h.le) (hx.value_ge hy h.ge)

/-! ## Arithmetic -/

theorem isNearest_signed {s : Bool} {m : Magnitude} {q : ℚ} (hm : m.IsNearest q) (hq : 0 ≤ q) :
    (signed s m).IsNearest (if s then -q else q) := by
  cases s
  · exact ⟨by rwa [if_neg Bool.false_ne_true, abs_of_nonneg hq], fun h => absurd h hq.not_gt,
      fun _ => rfl⟩
  · refine ⟨by rwa [if_pos rfl, abs_neg, abs_of_nonneg hq], fun _ => rfl, ?_⟩
    intro h
    rw [if_pos rfl] at h
    linarith

theorem isTop_eq_false {m : Magnitude} (h : m < .top) : m.isTop = false := by
  have : m.val ≠ topRank := Nat.ne_of_lt h
  simpa [Magnitude.isTop] using this

theorem value_neg (x : Binary64) : (-x).value = -x.value := by
  rcases x with _ | ⟨_ | _, m⟩
  · exact neg_zero.symm
  · rfl
  · exact (neg_neg m.value).symm

theorem IsFinite.neg {x : Binary64} (h : x.IsFinite) : (-x).IsFinite := by
  rcases x with _ | ⟨s, m⟩
  · exact h
  · exact h

/-- **The sum of doubles is the exact sum, rounded.** -/
theorem isNearest_add {x y : Binary64} (hx : x.IsFinite) (hy : y.IsFinite) :
    (x + y).IsNearest (x.value + y.value) := by
  rcases x with _ | ⟨s, a⟩
  · exact hx.elim
  rcases y with _ | ⟨t, b⟩
  · exact hy.elim
  have hsum := a.isNearest_sum b
  have hnonneg := add_nonneg a.value_nonneg b.value_nonneg
  simp only [add_def, add, isTop_eq_false hx, isTop_eq_false hy, Bool.false_eq_true, if_false]
  split
  case isTrue hst =>
    subst hst
    have h := isNearest_signed (s := s) hsum hnonneg
    cases s
    · exact h
    · simpa [add_comm] using h
  case isFalse hst =>
    obtain rfl : t = !s := by cases s <;> cases t <;> simp_all
    have hexact : (signed s a).value + (signed (!s) b).value
        = if s then -(a.value - b.value) else a.value - b.value := by
      cases s <;> simp <;> ring
    rw [hexact]
    have hval : ∀ m n : Magnitude, m.units < n.units → m.value < n.value := fun m n h =>
      div_lt_div_of_pos_right (by exact_mod_cast h) Magnitude.unitsPerOne_cast_pos
    rcases lt_trichotomy a.units b.units with h | h | h
    · rw [if_neg h.asymm, if_pos h]
      have hn := isNearest_signed (s := !s) (Magnitude.isNearest_gap h.le)
        (sub_nonneg.mpr (hval a b h).le)
      cases s <;> simpa using hn
    · obtain rfl : a = b := Magnitude.value_inj.mp (by rw [Magnitude.value, Magnitude.value, h])
      simpa using isNearest_value (x := zero) (by decide)
    · rw [if_pos h]
      exact isNearest_signed (Magnitude.isNearest_gap h.le) (sub_nonneg.mpr (hval b a h).le)

/-- **The difference of doubles is the exact difference, rounded.** -/
theorem isNearest_sub {x y : Binary64} (hx : x.IsFinite) (hy : y.IsFinite) :
    (x - y).IsNearest (x.value - y.value) := by
  rw [sub_def, ← add_def, sub_eq_add_neg, ← value_neg]
  exact isNearest_add hx hy.neg

theorem value_mul_signed (s t : Bool) (p q : ℚ) :
    (if s then -p else p) * (if t then -q else q) = if s != t then -(p * q) else p * q := by
  cases s <;> cases t <;> simp

theorem value_div_signed (s t : Bool) (p q : ℚ) :
    (if s then -p else p) / (if t then -q else q) = if s != t then -(p / q) else p / q := by
  cases s <;> cases t <;> simp [neg_div, div_neg]

/-- **The product of doubles is the exact product, rounded.** -/
theorem isNearest_mul {x y : Binary64} (hx : x.IsFinite) (hy : y.IsFinite) :
    (x * y).IsNearest (x.value * y.value) := by
  rcases x with _ | ⟨s, a⟩
  · exact hx.elim
  rcases y with _ | ⟨t, b⟩
  · exact hy.elim
  simp only [mul_def, mul, isTop_eq_false hx, isTop_eq_false hy, Bool.false_eq_true, if_false,
    value, value_mul_signed]
  exact isNearest_signed (a.isNearest_product b) (mul_nonneg a.value_nonneg b.value_nonneg)

/-- **The quotient of doubles is the exact quotient, rounded.** -/
theorem isNearest_div {x y : Binary64} (hx : x.IsFinite) (hy : y.IsFinite) (h0 : y.value ≠ 0) :
    (x / y).IsNearest (x.value / y.value) := by
  rcases x with _ | ⟨s, a⟩
  · exact hx.elim
  rcases y with _ | ⟨t, b⟩
  · exact hy.elim
  have hb : b ≠ .zero := by
    rintro rfl
    cases t <;> simp at h0
  simp only [div_def, div, isTop_eq_false hx, isTop_eq_false hy, Bool.false_eq_true, if_false,
    if_neg hb, value, value_div_signed]
  exact isNearest_signed (a.isNearest_ratio hb) (div_nonneg a.value_nonneg b.value_nonneg)

/-! ## Results of moderate size -/

theorem IsNearest.nonneg {x : Binary64} {q : ℚ} (h : x.IsNearest q) (hq : 0 ≤ q) : 0 ≤ x.value := by
  simpa using h.value_ge (y := zero) (by decide) (by simpa using hq)

theorem IsNearest.one_le {x : Binary64} {q : ℚ} (h : x.IsNearest q) (hq : 1 ≤ q) : 1 ≤ x.value := by
  simpa using h.value_ge (y := one) (by decide) (by simpa using hq)

theorem IsNearest.le_one {x : Binary64} {q : ℚ} (h : x.IsNearest q) (hq : q ≤ 1) : x.value ≤ 1 := by
  simpa using h.value_le (y := one) (by decide) (by simpa using hq)

theorem IsNearest.le_two {x : Binary64} {q : ℚ} (h : x.IsNearest q) (hq : q ≤ 2) : x.value ≤ 2 := by
  simpa using h.value_le (y := two) (by decide) (by simpa using hq)

/-- An exact result in `[0, 1]` rounds to a degree. -/
theorem IsNearest.isDegree {x : Binary64} {q : ℚ} (h : x.IsNearest q) (h₀ : 0 ≤ q) (h₁ : q ≤ 1) :
    x.isDegree = true :=
  isDegree_iff.mpr ⟨h.ne_nan, h.nonneg h₀, h.le_one h₁⟩

/-- An exact result in `[-4, 4]` rounds to a finite double. -/
theorem IsNearest.isFinite {x : Binary64} {q : ℚ} (h : x.IsNearest q) (h₀ : -4 ≤ q) (h₁ : q ≤ 4) :
    x.IsFinite := by
  have hfour : (signed false .four).value = 4 := Magnitude.value_four
  have hneg : (signed true .four).value = -4 := by rw [value_signed_true, Magnitude.value_four]
  have hlow := h.value_ge (y := signed true .four) (by decide) (by rw [hneg]; exact h₀)
  have hhigh := h.value_le (y := signed false .four) (by decide) (by rw [hfour]; exact h₁)
  exact isFinite_of_abs_le h.ne_nan (abs_le.mpr ⟨hneg ▸ hlow, hfour ▸ hhigh⟩)

theorem isFinite_of_isDegree {x : Binary64} (h : x.isDegree = true) : x.IsFinite := by
  obtain ⟨hx, h₀, h₁⟩ := isDegree_iff.mp h
  exact isFinite_of_abs_le hx (abs_le.mpr ⟨by linarith, by linarith⟩)

theorem isFinite_one : one.IsFinite := isFinite_of_isDegree (by decide)

theorem isFinite_two : two.IsFinite := isFinite_of_abs_le (by decide) (by norm_num)

/-- Values are whole multiples of the least step. -/
theorem exists_value_mul (x : Binary64) : ∃ a : ℤ, x.value * unitsPerOne = a := by
  rcases x with _ | ⟨_ | _, m⟩
  · exact ⟨0, by simp [value]⟩
  · exact ⟨m.units, by simp [Magnitude.value_mul_unitsPerOne]⟩
  · exact ⟨-m.units, by simp [Magnitude.value_mul_unitsPerOne]⟩

/-- The least positive double. -/
def tiny : Binary64 := .signed false ⟨1, by decide⟩

theorem value_tiny : tiny.value * unitsPerOne = 1 := by
  rw [tiny, value_signed_false, Magnitude.value_mul_unitsPerOne]
  exact_mod_cast (rfl : Magnitude.units ⟨1, by decide⟩ = 1)

/-- **No difference vanishes by rounding**: it is at least a least step, which is a double. -/
theorem value_sub_pos {x y : Binary64} (hx : x.IsFinite) (hy : y.IsFinite)
    (h : y.value < x.value) : 0 < (x - y).value := by
  have hU := Magnitude.unitsPerOne_cast_pos
  obtain ⟨a, ha⟩ := exists_value_mul x
  obtain ⟨b, hb⟩ := exists_value_mul y
  have hab : b < a := by
    rw [← Int.cast_lt (R := ℚ), ← ha, ← hb]
    exact mul_lt_mul_of_pos_right h hU
  have hstep : tiny.value ≤ x.value - y.value := by
    refine le_of_mul_le_mul_right ?_ hU
    rw [value_tiny, sub_mul, ha, hb]
    exact_mod_cast (by omega : 1 ≤ a - b)
  have htiny : 0 < tiny.value := pos_of_mul_pos_left (by rw [value_tiny]; norm_num) hU.le
  exact htiny.trans_le ((isNearest_sub hx hy).value_ge (by decide) hstep)

end Binary64

end FuzzyLogic
