import FuzzyLogic.Membership
import FuzzyLogic.Proofs.Binary64.Exact

/-!
# Proofs/Number/Comparison — numbers that are doubles compare by their values

A number compares by the point of the line it stands for.  On doubles this is comparison of values,
as it is for doubles among themselves, so that `min`, `max` and clamping are the same on both sides.
-/

namespace FuzzyLogic

namespace Binary64

theorem lt_iff_value {x y : Binary64} (hx : x ≠ .nan) (hy : y ≠ .nan) :
    x.lt y = true ↔ x.value < y.value := by
  rcases x with _ | ⟨s, m⟩
  · exact absurd rfl hx
  rcases y with _ | ⟨t, n⟩
  · exact absurd rfl hy
  rw [lt_iff_of_order (order_signed s m) (order_signed t n), ← not_le, signedRank_le_iff, not_le]

theorem equals_iff_value {x y : Binary64} (hx : x ≠ .nan) (hy : y ≠ .nan) :
    x.equals y = true ↔ x.value = y.value := by
  rcases x with _ | ⟨s, m⟩
  · exact absurd rfl hx
  rcases y with _ | ⟨t, n⟩
  · exact absurd rfl hy
  rw [equals, related, order_signed, order_signed]
  simp only [decide_eq_true_eq]
  constructor
  · exact fun h => le_antisymm ((signedRank_le_iff s t m n).mp h.le)
      ((signedRank_le_iff t s n m).mp h.ge)
  · exact fun h => le_antisymm ((signedRank_le_iff s t m n).mpr h.le)
      ((signedRank_le_iff t s n m).mpr h.ge)

theorem eq_infinite_of_not_isFinite {x : Binary64} (hx : x ≠ .nan) (h : ¬ x.IsFinite) :
    ∃ s, x = infinite s := by
  rcases x with _ | ⟨s, m⟩
  · exact absurd rfl hx
  · have hle : m ≤ .top := Nat.lt_succ_iff.mp m.isLt
    exact ⟨s, by rw [infinite, le_antisymm hle (not_lt.mp h)]⟩

/-- Infinity lies beyond every finite double. -/
theorem abs_value_lt_top {x : Binary64} (hx : x.IsFinite) : |x.value| < Magnitude.top.value := by
  rcases x with _ | ⟨s, m⟩
  · exact hx.elim
  · rw [abs_value_signed, Magnitude.value_lt_value]
    exact hx

end Binary64

namespace Number

/-! ## Points -/

/-- A finite double stands for the point at its value. -/
theorem point?_finite {x : Binary64} (hx : x.IsFinite) :
    ∃ a : ℤ, (float x).point? = some (.finite a unitsPerOne) ∧ (a : ℚ) = x.value * unitsPerOne := by
  rcases x with _ | ⟨s, m⟩
  · exact hx.elim
  · refine ⟨if s then -(m.units : ℤ) else m.units, ?_, ?_⟩
    · simp [point?, Binary64.isTop_eq_false hx]
    · cases s <;> simp [Magnitude.value_mul_unitsPerOne]

theorem compare_eq_of_lt_iff {a c : ℤ} {p q : ℚ} (hlt : a < c ↔ p < q) (hgt : c < a ↔ q < p) :
    compare a c = compare p q := by
  rcases lt_trichotomy p q with h | h | h
  · rw [compare_lt_iff_lt.mpr h, compare_lt_iff_lt.mpr (hlt.mpr h)]
  · have hac : a = c := le_antisymm (not_lt.mp fun hc => h.not_gt (hgt.mp hc))
      (not_lt.mp fun hc => h.not_lt (hlt.mp hc))
    rw [compare_eq_iff_eq.mpr h, compare_eq_iff_eq.mpr hac]
  · rw [compare_gt_iff_gt.mpr h, compare_gt_iff_gt.mpr (hgt.mpr h)]

theorem point?_infinite (s : Bool) :
    (float (.infinite s)).point? = some (if s then .below else .above) := by
  cases s <;> rfl

/-- **The points of doubles compare as their values do**, infinities included. -/
theorem compare_point? {x y : Binary64} (hx : x ≠ .nan) (hy : y ≠ .nan) :
    ∃ p q, (float x).point? = some p ∧ (float y).point? = some q ∧
      p.compare q = compare x.value y.value := by
  by_cases hfx : x.IsFinite <;> by_cases hfy : y.IsFinite
  · obtain ⟨a, ha, hav⟩ := point?_finite hfx
    obtain ⟨c, hc, hcv⟩ := point?_finite hfy
    refine ⟨_, _, ha, hc, ?_⟩
    have hU := Magnitude.unitsPerOne_cast_pos
    have hcast : ∀ {a c : ℤ} {p q : ℚ}, (a : ℚ) = p * unitsPerOne → (c : ℚ) = q * unitsPerOne →
        (a * (unitsPerOne : ℤ) < c * (unitsPerOne : ℤ) ↔ p < q) := by
      intro a c p q hp hq
      rw [mul_lt_mul_iff_left₀ (by exact_mod_cast unitsPerOne_pos), ← Int.cast_lt (R := ℚ), hp, hq,
        mul_lt_mul_iff_left₀ hU]
    exact compare_eq_of_lt_iff (hcast hav hcv) (hcast hcv hav)
  · obtain ⟨a, ha, -⟩ := point?_finite hfx
    obtain ⟨t, rfl⟩ := Binary64.eq_infinite_of_not_isFinite hy hfy
    refine ⟨_, _, ha, point?_infinite t, ?_⟩
    obtain ⟨hlow, hhigh⟩ := abs_lt.mp (Binary64.abs_value_lt_top hfx)
    cases t
    · exact (compare_lt_iff_lt.mpr hhigh).symm
    · exact (compare_gt_iff_gt.mpr hlow).symm
  · obtain ⟨c, hc, -⟩ := point?_finite hfy
    obtain ⟨s, rfl⟩ := Binary64.eq_infinite_of_not_isFinite hx hfx
    refine ⟨_, _, point?_infinite s, hc, ?_⟩
    obtain ⟨hlow, hhigh⟩ := abs_lt.mp (Binary64.abs_value_lt_top hfy)
    cases s
    · exact (compare_gt_iff_gt.mpr hhigh).symm
    · exact (compare_lt_iff_lt.mpr hlow).symm
  · obtain ⟨s, rfl⟩ := Binary64.eq_infinite_of_not_isFinite hx hfx
    obtain ⟨t, rfl⟩ := Binary64.eq_infinite_of_not_isFinite hy hfy
    refine ⟨_, _, point?_infinite s, point?_infinite t, ?_⟩
    have hpos : -Magnitude.top.value < Magnitude.top.value :=
      neg_lt_self (Magnitude.value_pos.mpr (by decide))
    cases s <;> cases t
    · exact (compare_eq_iff_eq.mpr rfl).symm
    · exact (compare_gt_iff_gt.mpr hpos).symm
    · exact (compare_lt_iff_lt.mpr hpos).symm
    · exact (compare_eq_iff_eq.mpr rfl).symm

/-! ## Comparison, smaller and larger, clamping -/

variable {x y : Binary64}

theorem lt_float (hx : x ≠ .nan) (hy : y ≠ .nan) : (float x).lt (float y) = x.lt y := by
  obtain ⟨p, q, hp, hq, hc⟩ := compare_point? hx hy
  rw [Bool.eq_iff_iff, Binary64.lt_iff_value hx hy, lt, related, hp, hq]
  simp [hc, compare_lt_iff_lt]

theorem le_float (hx : x ≠ .nan) (hy : y ≠ .nan) : (float x).le (float y) = x.le y := by
  obtain ⟨p, q, hp, hq, hc⟩ := compare_point? hx hy
  rw [Bool.eq_iff_iff, Binary64.le_iff_value hx hy, le, related, hp, hq]
  simp [hc, compare_gt_iff_gt]

theorem equals_float (hx : x ≠ .nan) (hy : y ≠ .nan) :
    (float x).equals (float y) = x.equals y := by
  obtain ⟨p, q, hp, hq, hc⟩ := compare_point? hx hy
  rw [Bool.eq_iff_iff, Binary64.equals_iff_value hx hy, equals, related, hp, hq]
  simp [hc]

theorem max_float (hx : x ≠ .nan) (hy : y ≠ .nan) :
    (float x).max (float y) = float (x.max y) := by
  rw [max, Binary64.max, lt_float hx hy]
  split <;> rfl

theorem min_float (hx : x ≠ .nan) (hy : y ≠ .nan) :
    (float x).min (float y) = float (x.min y) := by
  rw [min, Binary64.min, lt_float hy hx]
  split <;> rfl

end Number

namespace Binary64

variable {x y : Binary64}

theorem max_ne_nan (hx : x ≠ .nan) (hy : y ≠ .nan) : x.max y ≠ .nan := by
  unfold max
  split <;> assumption

theorem min_ne_nan (hx : x ≠ .nan) (hy : y ≠ .nan) : x.min y ≠ .nan := by
  unfold min
  split <;> assumption

theorem value_max (hx : x ≠ .nan) (hy : y ≠ .nan) : (x.max y).value = Max.max x.value y.value := by
  unfold max
  by_cases h : x.lt y = true
  · rw [if_pos h, max_eq_right ((lt_iff_value hx hy).mp h).le]
  · rw [if_neg h, max_eq_left (not_lt.mp fun hlt => h ((lt_iff_value hx hy).mpr hlt))]

theorem value_min (hx : x ≠ .nan) (hy : y ≠ .nan) : (x.min y).value = Min.min x.value y.value := by
  unfold min
  by_cases h : y.lt x = true
  · rw [if_pos h, min_eq_right ((lt_iff_value hy hx).mp h).le]
  · rw [if_neg h, min_eq_left (not_lt.mp fun hlt => h ((lt_iff_value hy hx).mpr hlt))]

theorem clamped_ne_nan (hx : x ≠ .nan) : Membership.clamped x ≠ .nan :=
  min_ne_nan (max_ne_nan hx (by decide)) (by decide)

/-- Clamping moves the value to the nearer end of `[0, 1]`. -/
theorem value_clamped (hx : x ≠ .nan) :
    (Membership.clamped x).value = Min.min (Max.max x.value 0) 1 := by
  have hzero : zero ≠ .nan := by decide
  rw [Membership.clamped, value_min (max_ne_nan hx hzero) (by decide), value_max hx hzero,
    value_zero, value_one]

/-- **Clamping anything but NaN gives a degree.** -/
theorem isDegree_clamped (hx : x ≠ .nan) : (Membership.clamped x).isDegree = true := by
  refine isDegree_iff.mpr ⟨clamped_ne_nan hx, ?_, ?_⟩ <;> rw [value_clamped hx]
  · exact le_min (le_max_right _ _) zero_le_one
  · exact min_le_right _ _

end Binary64

end FuzzyLogic
