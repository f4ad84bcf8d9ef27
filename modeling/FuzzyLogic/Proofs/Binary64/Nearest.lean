import FuzzyLogic.Proofs.Binary64.Rank
import Mathlib.Algebra.Order.Ring.Abs

/-!
# Proofs/Binary64/Nearest — what it means to round correctly

`Magnitude.value` is the rational a magnitude denotes, infinity counting as `2¹⁰²⁴`.  A magnitude is
**nearest** to a rational when no other lies closer, and when it has even rank if another lies as
close: the rule of rounding to nearest with ties to even, said without the algorithm.

* `IsNearest.unique`, `IsNearest.mono` — there is at most one, and it grows with the rational;
* `isNearest_nearest` — the rounding of the library finds it.
-/

namespace FuzzyLogic

namespace Magnitude

/-- The rational a magnitude denotes. -/
def value (m : Magnitude) : ℚ := m.units / unitsPerOne

/-- No magnitude lies closer to `q`, and of two equally close ones this is the one of even rank. -/
def IsNearest (m : Magnitude) (q : ℚ) : Prop :=
  ∀ n : Magnitude, n ≠ m →
    |m.value - q| < |n.value - q| ∨ |m.value - q| = |n.value - q| ∧ m.val % 2 = 0

/-! ## Values -/

theorem unitsPerOne_cast_pos : (0 : ℚ) < unitsPerOne := by exact_mod_cast unitsPerOne_pos

theorem value_mul_unitsPerOne (m : Magnitude) : m.value * unitsPerOne = m.units :=
  div_mul_cancel₀ _ unitsPerOne_cast_pos.ne'

theorem value_strictMono : StrictMono value := fun _ _ h =>
  div_lt_div_of_pos_right (units_cast_lt h) unitsPerOne_cast_pos

theorem value_lt_value {m n : Magnitude} : m.value < n.value ↔ m < n := value_strictMono.lt_iff_lt

theorem value_le_value {m n : Magnitude} : m.value ≤ n.value ↔ m ≤ n := value_strictMono.le_iff_le

theorem value_inj {m n : Magnitude} : m.value = n.value ↔ m = n := value_strictMono.injective.eq_iff

theorem value_nonneg (m : Magnitude) : 0 ≤ m.value :=
  div_nonneg (Nat.cast_nonneg _) unitsPerOne_cast_pos.le

@[simp] theorem value_zero : zero.value = 0 := by simp [value, units_zero]

@[simp] theorem value_one : one.value = 1 := by
  rw [value, units_one, div_self unitsPerOne_cast_pos.ne']

theorem value_of_units {m : Magnitude} {n : ℕ} (h : m.units = n * unitsPerOne) : m.value = n := by
  rw [value, h, Nat.cast_mul, mul_div_cancel_right₀ _ unitsPerOne_cast_pos.ne']

theorem value_two : two.value = 2 := value_of_units (n := 2) (by decide +kernel)

/-- The magnitude of `4`. -/
def four : Magnitude := ⟨1025 * binade, by decide⟩

theorem value_four : four.value = 4 := value_of_units (n := 4) (by decide +kernel)

/-! ## Distances -/

/-- Past halfway from `u` to `v` the distance to `v` is the smaller one. -/
theorem abs_sub_le_of_half {u v q : ℚ} (huv : u < v) (h : u + v ≤ 2 * q) : |v - q| ≤ |u - q| :=
  sq_le_sq.mp (by nlinarith)

theorem abs_sub_lt_of_half {u v q : ℚ} (huv : u < v) (h : u + v < 2 * q) : |v - q| < |u - q| :=
  sq_lt_sq.mp (by nlinarith)

/-- Before halfway from `u` to `v` the distance to `u` is the smaller one. -/
theorem abs_sub_le_of_half' {u v q : ℚ} (huv : u < v) (h : 2 * q ≤ u + v) : |u - q| ≤ |v - q| :=
  sq_le_sq.mp (by nlinarith)

theorem abs_sub_lt_of_half' {u v q : ℚ} (huv : u < v) (h : 2 * q < u + v) : |u - q| < |v - q| :=
  sq_lt_sq.mp (by nlinarith)

theorem half_le_of_abs_sub_le {u v q : ℚ} (huv : u < v) (h : |v - q| ≤ |u - q|) :
    u + v ≤ 2 * q :=
  not_lt.mp fun hlt => (abs_sub_lt_of_half' huv hlt).not_ge h

theorem le_half_of_abs_sub_le {u v q : ℚ} (huv : u < v) (h : |u - q| ≤ |v - q|) :
    2 * q ≤ u + v :=
  not_lt.mp fun hlt => (abs_sub_lt_of_half huv hlt).not_ge h

/-! ## At most one is nearest -/

theorem IsNearest.abs_le {m : Magnitude} {q : ℚ} (h : m.IsNearest q) (n : Magnitude) :
    |m.value - q| ≤ |n.value - q| := by
  rcases eq_or_ne n m with rfl | hne
  · exact le_rfl
  · exact (h n hne).elim le_of_lt fun he => he.1.le

/-- Two magnitudes nearest to one rational are equally close and both of even rank, so that one
between them would be closer. -/
theorem IsNearest.not_below {m n : Magnitude} {q : ℚ} (hm : m.IsNearest q) (hn : n.IsNearest q) :
    ¬ m < n := by
  intro hlt
  have heven : m.val % 2 = 0 :=
    ((hm n hlt.ne').resolve_left fun h => h.not_ge (hn.abs_le m)).2
  have heven' : n.val % 2 = 0 :=
    ((hn m hlt.ne).resolve_left fun h => h.not_ge (hm.abs_le n)).2
  have hgap : m.val + 1 < n.val := by
    have : m.val < n.val := hlt
    omega
  let k : Magnitude := ⟨m.val + 1, by omega⟩
  have hmk : m < k := Nat.lt_succ_self m.val
  have hkn : k < n := hgap
  have h₁ := le_half_of_abs_sub_le (value_lt_value.mpr hmk) (hm.abs_le k)
  have h₂ := half_le_of_abs_sub_le (value_lt_value.mpr hkn) (hn.abs_le k)
  linarith [value_lt_value.mpr hlt]

theorem IsNearest.unique {m n : Magnitude} {q : ℚ} (hm : m.IsNearest q) (hn : n.IsNearest q) :
    m = n :=
  le_antisymm (not_lt.mp (hn.not_below hm)) (not_lt.mp (hm.not_below hn))

/-- **Correct rounding is monotone.** -/
theorem IsNearest.mono {m n : Magnitude} {p q : ℚ} (hm : m.IsNearest p) (hn : n.IsNearest q)
    (hpq : p ≤ q) : m ≤ n := by
  by_contra hlt
  have hnm : n < m := not_le.mp hlt
  have h₁ := half_le_of_abs_sub_le (value_lt_value.mpr hnm) (hm.abs_le n)
  have h₂ := le_half_of_abs_sub_le (value_lt_value.mpr hnm) (hn.abs_le m)
  obtain rfl : p = q := by linarith
  exact hnm.ne (hn.unique hm)

/-- The magnitude nearest to its own value. -/
theorem isNearest_value (m : Magnitude) : m.IsNearest m.value := by
  intro n hne
  refine .inl ?_
  rw [sub_self, abs_zero, abs_pos, sub_ne_zero]
  exact fun h => hne (value_inj.mp h)

/-! ## The rounding of the library -/

/-- Between halfway to the rank below and halfway to the rank above lies what a rank is nearest to;
there is no rank above infinity. -/
theorem isNearest_of_half {m : Magnitude} {q : ℚ}
    (hlow : ∀ n < m, n.value + m.value ≤ 2 * q ∧ (m.val % 2 = 1 → n.value + m.value < 2 * q))
    (hup : ∀ n > m, 2 * q ≤ m.value + n.value ∧ (m.val % 2 = 1 → 2 * q < m.value + n.value)) :
    m.IsNearest q := by
  intro n hne
  rcases Nat.mod_two_eq_zero_or_one m.val with heven | hodd
  · refine (le_iff_lt_or_eq.mp ?_).imp id fun h => ⟨h, heven⟩
    rcases lt_or_gt_of_ne hne with h | h
    · exact abs_sub_le_of_half (value_lt_value.mpr h) (hlow n h).1
    · exact abs_sub_le_of_half' (value_lt_value.mpr h) (hup n h).1
  · rcases lt_or_gt_of_ne hne with h | h
    · exact .inl (abs_sub_lt_of_half (value_lt_value.mpr h) ((hlow n h).2 hodd))
    · exact .inl (abs_sub_lt_of_half' (value_lt_value.mpr h) ((hup n h).2 hodd))

/-- Twice a rational and a sum of two values compare as they do when counted in units. -/
theorem value_add_value (m n : Magnitude) :
    (m.value + n.value) * unitsPerOne = (FuzzyLogic.units m.val + FuzzyLogic.units n.val : ℚ) := by
  rw [add_mul, value_mul_unitsPerOne, value_mul_unitsPerOne]
  rfl

theorem le_of_mul_unitsPerOne_le {p q : ℚ} (h : p * unitsPerOne ≤ q * unitsPerOne) : p ≤ q :=
  le_of_mul_le_mul_right h unitsPerOne_cast_pos

theorem lt_of_mul_unitsPerOne_lt {p q : ℚ} (h : p * unitsPerOne < q * unitsPerOne) : p < q :=
  lt_of_mul_lt_mul_right h unitsPerOne_cast_pos.le

/-- The rank that attracts a rational, cut off at infinity, is nearest to it. -/
theorem isNearest_of_attracts {r : ℕ} {m : Magnitude} {q : ℚ} (hm : m.val = min r topRank)
    (hr : Attracts r (q * unitsPerOne)) : m.IsNearest q := by
  have hmr : m.val ≤ r := by omega
  refine isNearest_of_half (fun n hn => ?_) fun n hn => ?_
  · have hlt : n.val < m.val := hn
    have h₁ := units_cast_le (show n.val ≤ r - 1 by omega)
    have h₂ := units_cast_le hmr
    refine ⟨le_of_mul_unitsPerOne_le ?_, fun hodd => lt_of_mul_unitsPerOne_lt ?_⟩
    · rw [value_add_value, mul_assoc]
      linarith [hr.lower]
    · have htop : topRank % 2 = 0 := by decide
      rw [value_add_value, mul_assoc]
      linarith [(hr.inside (by omega)).1]
  · have hlt : m.val < n.val := hn
    obtain rfl : m.val = r := by have := n.isLt; omega
    have h₁ := units_cast_le (show m.val + 1 ≤ n.val from hlt)
    refine ⟨le_of_mul_unitsPerOne_le ?_, fun hodd => lt_of_mul_unitsPerOne_lt ?_⟩
    · rw [value_add_value, mul_assoc]
      linarith [hr.upper]
    · rw [value_add_value, mul_assoc]
      linarith [(hr.inside hodd).2]

/-- **The rounding of the library is correct**: `nearest num den` is nearest to `num / den` units. -/
theorem isNearest_nearest (num : ℕ) {den : ℕ} (hden : 0 < den) :
    (nearest num den).IsNearest (num / den / unitsPerOne) := by
  refine isNearest_of_attracts (r := nearestRank num den) rfl ?_
  rw [div_mul_cancel₀ _ unitsPerOne_cast_pos.ne']
  exact attracts_nearestRank num hden

end Magnitude

end FuzzyLogic
