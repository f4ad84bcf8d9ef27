import FuzzyLogic.Proofs.Binary64.Grid
import FuzzyLogic.Proofs.Opset.CatalogueRange

/-!
# Proofs/Opset/CatalogueOrder — conjunctions lie below disjunctions

The conjunction of two degrees is at most their disjunction, and that both are rounded several times
must not turn this round.  With the quotients of the Hamacher sets it is a comparison of cross
products (`value_clamped_quotient_le`), and these differ by more than rounding goes:

* for parameter `2` everywhere (`hamacher2_cross`): near `a = b = 1` the product is exactly
  `a + b - 1`, and elsewhere the gap is of the order of `2 - a - b`;
* for parameter `0` the gap is of the order of `(2 - a - b)²`, which is enough up to
  `a + b = 2 - 2⁻²⁵` (`hamacher0_cross`).

**Beyond that the order fails**: next to `a = b = 1` the numerator and the denominator of the
disjunction with parameter `0` are of the size of their rounding errors.
-/

namespace FuzzyLogic

namespace Catalogue

variable {a b x y : Binary64}

/-! ## Outcomes in order -/

/-- Both outcomes are doubles, and the first is at most the second. -/
def Ordered (r r' : Except Fault Number) : Prop :=
  ∃ x y : Binary64, r = .ok (.float x) ∧ r' = .ok (.float y) ∧ x.le y = true

theorem Ordered.of_value_le {r r' : Except Fault Number} (hr : r = .ok (.float x))
    (hr' : r' = .ok (.float y)) (hx : x ≠ .nan) (hy : y ≠ .nan) (h : x.value ≤ y.value) :
    Ordered r r' :=
  ⟨x, y, hr, hr', (Binary64.le_iff_value hx hy).mpr h⟩

/-- **Clamped quotients compare as cross products do.** -/
theorem value_clamped_quotient_le {n d n' d' : Binary64} (hn : n.IsFinite) (hd : d.IsFinite)
    (hn' : n'.IsFinite) (hd' : d'.IsFinite) (hpos : 0 < d.value) (hpos' : 0 < d'.value)
    (h : n.value * d'.value ≤ n'.value * d.value) :
    (Membership.clamped (n / d)).value ≤ (Membership.clamped (n' / d')).value := by
  have hq := Binary64.isNearest_div hn hd hpos.ne'
  have hq' := Binary64.isNearest_div hn' hd' hpos'.ne'
  have hle := hq.mono hq' ((div_le_div_iff₀ hpos hpos').mpr h)
  rw [Binary64.value_clamped hq.ne_nan, Binary64.value_clamped hq'.ne_nan]
  exact min_le_min_right 1 (max_le_max_right 0 hle)

/-! ## Cross products with errors

The sum of two degrees is `S` and their product `q`.  With parameter two the quotients are
`q / (2 - S + q)` and `S / (1 + q)`, with parameter zero `q / (S - q)` and `(S - 2q) / (1 - q)`. -/

section Errors

variable {S q p E N D : ℚ}

/-- With parameter zero: the exact cross products differ by the square of `S (2 - S)` at least,
which is what is left where the degrees are equal. -/
theorem gap_le (h₀ : 0 ≤ S) (h₂ : S ≤ 2) (hq : q ≤ S ^ 2 / 4) :
    3 / 16 * (S * (2 - S)) ^ 2 ≤ (S - 2 * q) * (S - q) - q * (1 - q) := by
  have hslope : 0 ≤ 1 + 3 / 2 * (S * (2 - S)) := by
    linarith [mul_nonneg h₀ (sub_nonneg.mpr h₂)]
  linarith [mul_nonneg (sub_nonneg.mpr hq) hslope, sq_nonneg (S ^ 2 / 4 - q)]

/-- Up to `2 - 2⁻²⁵` this is more than the errors make out. -/
theorem errors_le (h₀ : 1 / 16 ≤ S) (h₂ : S ≤ 2 - 1 / 2 ^ 25) :
    4 / 2 ^ 53 + 3 / 2 ^ 53 * (2 - S) + 8 / 2 ^ 106 ≤ 3 / 16 * (S * (2 - S)) ^ 2 := by
  rcases le_total (15 / 8) S with hS | hS
  · have hlow : 15 / 8 * (1 / 2 ^ 25) ≤ S * (2 - S) :=
      mul_le_mul hS (by linarith) (by norm_num) (by linarith)
    have hsq := pow_le_pow_left₀ (by norm_num) hlow 2
    norm_num at hsq ⊢
    linarith
  · have hlow : 1 / 16 ≤ S * (2 - S) := by
      linarith [mul_nonneg (sub_nonneg.mpr h₀) (sub_nonneg.mpr hS)]
    have hsq := pow_le_pow_left₀ (by norm_num) hlow 2
    norm_num at hsq ⊢
    linarith

/-- With parameter two: away from `a + b = 2` the product, at most half the sum, leaves room for
errors. -/
theorem cross_le_of_half {s F H : ℚ} (hS : 1 / 2 ≤ S) (h₂ : S ≤ 2 - 1 / 2 ^ 27) (hp : p ≤ S / 2)
    (hF₀ : 0 ≤ F) (hF : F ≤ S + 4 / 2 ^ 53) (hs : S - 1 / 2 ^ 53 ≤ s) (hH : 1 - 3 / 2 ^ 53 ≤ H) :
    p * F ≤ s * H := by
  have hroom : 0 ≤ (S - 1 / 2) * ((2 - S) / 2 - 5 / 2 ^ 53) :=
    mul_nonneg (by linarith) (by linarith)
  calc p * F ≤ S / 2 * (S + 4 / 2 ^ 53) := mul_le_mul hp hF hF₀ (by linarith)
    _ ≤ (S - 1 / 2 ^ 53) * (1 - 3 / 2 ^ 53) := by linarith
    _ ≤ s * H := mul_le_mul hs hH (by norm_num) (by linarith)

theorem abs_mul_le_mul {e f c d : ℚ} (he : |e| ≤ c) (hf : |f| ≤ d) : |e * f| ≤ c * d := by
  rw [abs_mul]
  exact mul_le_mul he hf (abs_nonneg f) ((abs_nonneg e).trans he)

/-- **Cross products stay in order when all four factors are off.** -/
theorem cross_le_of_errors (hq₀ : 0 ≤ q) (hq : q ≤ S ^ 2 / 4) (h₀ : 1 / 16 ≤ S)
    (h₂ : S ≤ 2 - 1 / 2 ^ 25) (hvary : 0 ≤ 1 - S + q) (hp : |p - q| ≤ 1 / 2 ^ 54)
    (hE : |E - (1 - q)| ≤ 1 / 2 ^ 53) (hN : |N - (S - 2 * q)| ≤ 3 / 2 ^ 53)
    (hD : |D - (S - q)| ≤ 5 / 2 ^ 54) : p * E ≤ N * D := by
  have hgap := (errors_le h₀ h₂).trans (gap_le (by linarith) (by linarith) hq)
  have hq_le : 2 * q ≤ S := by
    linarith [mul_nonneg (show 0 ≤ S by linarith) (show 0 ≤ 2 - S by linarith)]
  -- the difference of the cross products is the exact one, and what the errors add to it
  have hexpand : N * D - p * E = (S - 2 * q) * (S - q) - q * (1 - q) +
      (N - (S - 2 * q)) * (S - q) + (D - (S - q)) * (S - 2 * q) +
      (N - (S - 2 * q)) * (D - (S - q)) - (p - q) * (1 - q) - (E - (1 - q)) * q -
      (p - q) * (E - (1 - q)) := by ring
  have h₁ := (abs_le.mp (abs_mul_le_mul hN (show |S - q| ≤ 1 from
    abs_le.mpr ⟨by linarith, by linarith⟩))).1
  have h₂ := (abs_le.mp (abs_mul_le_mul hD (show |S - 2 * q| ≤ 2 - S from
    abs_le.mpr ⟨by linarith, by linarith⟩))).1
  have h₃ := (abs_le.mp (abs_mul_le_mul hN hD)).1
  have h₄ := (abs_le.mp (abs_mul_le_mul hp (show |1 - q| ≤ 2 - S from
    abs_le.mpr ⟨by linarith, by linarith⟩))).2
  have h₅ := (abs_le.mp (abs_mul_le_mul hE (show |q| ≤ 1 from
    abs_le.mpr ⟨by linarith, by linarith⟩))).2
  have h₆ := (abs_le.mp (abs_mul_le_mul hp hE)).2
  linarith

end Errors

/-! ## Sums and products of degrees -/

section Degrees

variable (ha : a.isDegree = true) (hb : b.isDegree = true)
include ha hb

theorem value_product_le_left : (a * b).value ≤ a.value := by
  obtain ⟨hna, ha₀, ha₁⟩ := Binary64.isDegree_iff.mp ha
  obtain ⟨-, hb₀, hb₁⟩ := Binary64.isDegree_iff.mp hb
  exact (isNearest_product ha hb).value_le hna (mul_le_of_le_one_right ha₀ hb₁)

theorem value_product_le_right : (a * b).value ≤ b.value := by
  obtain ⟨-, ha₀, ha₁⟩ := Binary64.isDegree_iff.mp ha
  obtain ⟨hnb, hb₀, hb₁⟩ := Binary64.isDegree_iff.mp hb
  exact (isNearest_product ha hb).value_le hnb (mul_le_of_le_one_left hb₀ ha₁)

/-- A rounded sum is at least twice the smaller summand, which is a double. -/
theorem two_mul_value_product_le_sum : 2 * (a * b).value ≤ (a + b).value := by
  obtain ⟨hna, ha₀, ha₁⟩ := Binary64.isDegree_iff.mp ha
  obtain ⟨hnb, hb₀, hb₁⟩ := Binary64.isDegree_iff.mp hb
  rcases le_total a.value b.value with h | h
  · obtain ⟨y, hy, hvalue⟩ := Binary64.exists_value_eq_two_mul hna ha₀ (by linarith)
    have := (isNearest_sum ha hb).value_ge hy (by linarith)
    linarith [value_product_le_left ha hb]
  · obtain ⟨y, hy, hvalue⟩ := Binary64.exists_value_eq_two_mul hnb hb₀ (by linarith)
    have := (isNearest_sum ha hb).value_ge hy (by linarith)
    linarith [value_product_le_right ha hb]

theorem product_error : |(a * b).value - a.value * b.value| ≤ 1 / 2 ^ 54 := by
  obtain ⟨-, ha₀, ha₁⟩ := Binary64.isDegree_iff.mp ha
  obtain ⟨-, hb₀, hb₁⟩ := Binary64.isDegree_iff.mp hb
  exact (isNearest_product ha hb).error_le_of_le_one (mul_nonneg ha₀ hb₀) (mul_le_one₀ ha₁ hb₀ hb₁)

theorem sum_error : |(a + b).value - (a.value + b.value)| ≤ 1 / 2 ^ 53 := by
  obtain ⟨-, ha₀, ha₁⟩ := Binary64.isDegree_iff.mp ha
  obtain ⟨-, hb₀, hb₁⟩ := Binary64.isDegree_iff.mp hb
  exact (isNearest_sum ha hb).error_le_of_le_two (by linarith) (by linarith)

/-! ## The Yager sets and parameter one -/

theorem yager1_ordered : Ordered (Yager1.conjunction (.float a) (.float b))
    (Yager1.disjunction (.float a) (.float b)) := by
  have hone : Binary64.one ≠ .nan := by decide
  have hsum := (isNearest_sum ha hb).ne_nan
  have hc := isNearest_yager1_conjunction ha hb
  obtain ⟨hs₀, hs₂⟩ := value_sum_bounds ha hb
  refine .of_value_le (yager1_conjunction_eq ha hb)
    (congrArg Except.ok (Number.min_float hsum hone)) hc.ne_nan (Binary64.min_ne_nan hsum hone) ?_
  rw [Binary64.value_min hsum hone, Binary64.value_one]
  rcases le_total (a + b).value 1 with h | h
  · rw [max_eq_right h, sub_self] at hc
    rw [hc.value_eq (y := .zero) (by decide) Binary64.value_zero.symm, Binary64.value_zero]
    exact le_min hs₀ zero_le_one
  · rw [max_eq_left h] at hc
    rw [min_eq_right h]
    exact hc.le_one (by linarith)

theorem yagerInf_ordered : Ordered (YagerInf.conjunction (.float a) (.float b))
    (YagerInf.disjunction (.float a) (.float b)) := by
  obtain ⟨hna, -, -⟩ := Binary64.isDegree_iff.mp ha
  obtain ⟨hnb, -, -⟩ := Binary64.isDegree_iff.mp hb
  refine .of_value_le (congrArg Except.ok (Number.min_float hna hnb))
    (congrArg Except.ok (Number.max_float hna hnb)) (Binary64.min_ne_nan hna hnb)
    (Binary64.max_ne_nan hna hnb) ?_
  rw [Binary64.value_min hna hnb, Binary64.value_max hna hnb]
  exact min_le_max

theorem hamacher1_ordered : Ordered (Hamacher1.conjunction (.float a) (.float b))
    (Hamacher1.disjunction (.float a) (.float b)) := by
  have hprod := isDegree_product ha hb
  obtain ⟨hnp, -, hp₁⟩ := Binary64.isDegree_iff.mp hprod
  have hdiff := Binary64.isNearest_sub (isFinite_sum ha hb) (Binary64.isFinite_of_isDegree hprod)
  refine .of_value_le rfl (congrArg Except.ok (clamp_float hdiff.ne_nan)) hnp
    (Binary64.clamped_ne_nan hdiff.ne_nan) ?_
  have hle := hdiff.value_ge hnp (by linarith [two_mul_value_product_le_sum ha hb])
  rw [Binary64.value_clamped hdiff.ne_nan]
  exact le_min (hle.trans (le_max_left _ _)) hp₁

/-! ## Parameter two -/

/-- **Near one the product is exact**: it lies closer to `a + b - 1` than to any other multiple of
`2⁻⁵³`. -/
theorem value_product_of_near_two (h : 2 - 1 / 2 ^ 27 ≤ a.value + b.value) :
    (a * b).value = a.value + b.value - 1 := by
  obtain ⟨hna, ha₀, ha₁⟩ := Binary64.isDegree_iff.mp ha
  obtain ⟨hnb, hb₀, hb₁⟩ := Binary64.isDegree_iff.mp hb
  have hprod := isNearest_product ha hb
  have hq₀ : 0 ≤ a.value * b.value := mul_nonneg ha₀ hb₀
  norm_num at h
  obtain ⟨i, hi⟩ := Binary64.exists_eq_value hna (by linarith)
  obtain ⟨j, hj⟩ := Binary64.exists_eq_value hnb (by linarith)
  -- `a + b - 1` is a multiple of `2⁻⁵³`, hence a double
  obtain ⟨n, hn⟩ : ∃ n : ℕ, i + j = n + 2 ^ 53 := by
    refine ⟨i + j - 2 ^ 53, (Nat.sub_add_cancel ?_).symm⟩
    have hle : (2 : ℚ) ^ 53 ≤ i + j := by linarith
    exact_mod_cast hle
  have hsum : a.value + b.value - 1 = n / 2 ^ 53 := by
    have hcast : (i + j : ℚ) = n + 2 ^ 53 := by exact_mod_cast hn
    rw [hi, hj]
    linarith
  have hle : n ≤ 2 ^ 53 := by
    have hle : (n : ℚ) ≤ 2 ^ 53 := by linarith
    exact_mod_cast hle
  obtain ⟨y, hy⟩ := Magnitude.exists_value_eq (j := 53) (by norm_num) hle (by linarith)
  -- the product is closer to it than half a step
  have hgap : a.value * b.value - n / 2 ^ 53 = (1 - a.value) * (1 - b.value) := by
    rw [← hsum]
    ring
  have hgap₀ : 0 ≤ (1 - a.value) * (1 - b.value) :=
    mul_nonneg (sub_nonneg.mpr ha₁) (sub_nonneg.mpr hb₁)
  have hsmall : (1 - a.value) * (1 - b.value) ≤ 1 / 2 ^ 56 := by
    have hsq : (2 - (a.value + b.value)) ^ 2 ≤ (1 / 2 ^ 27) ^ 2 :=
      pow_le_pow_left₀ (by linarith) (by norm_num; linarith) 2
    nlinarith [sq_nonneg (a.value - b.value)]
  have hclose := hprod.abs_sub_le_abs_sub hq₀ y
  rw [hy, abs_sub_comm (n / 2 ^ 53 : ℚ), hgap, abs_of_nonneg hgap₀] at hclose
  obtain ⟨hlow, hhigh⟩ := abs_sub_le_iff.mp hclose
  obtain ⟨k, hk⟩ := Binary64.exists_eq_value hprod.ne_nan (by linarith)
  have hkn : k = n := by
    have hlt : (k : ℚ) < n + 1 := by linarith
    have hgt : (n : ℚ) < k + 1 := by linarith
    have hlt' : k < n + 1 := by exact_mod_cast hlt
    have hgt' : n < k + 1 := by exact_mod_cast hgt
    omega
  rw [hk, hkn, hsum]

/-- How far the denominator of the conjunction is from `2 - a - b + ab`. -/
theorem two_sub_sub_error :
    2 - (a.value + b.value) - 1 / 2 ^ 52 ≤ (Binary64.two - a - b).value := by
  obtain ⟨-, ha₀, ha₁⟩ := Binary64.isDegree_iff.mp ha
  obtain ⟨-, hb₀, hb₁⟩ := Binary64.isDegree_iff.mp hb
  have hfa := Binary64.isFinite_of_isDegree ha
  have houter := Binary64.isNearest_sub Binary64.isFinite_two hfa
  have hinner := Binary64.abs_value_sub_sub_le Binary64.isFinite_two hfa
    (by rw [Binary64.value_two]; linarith) (by rw [Binary64.value_two]; linarith)
  rw [Binary64.value_two] at houter hinner
  have hone := houter.one_le (by linarith)
  have htwo := houter.le_two (by linarith)
  have herror := Binary64.abs_value_sub_sub_le (houter.isFinite (by linarith) (by linarith))
    (Binary64.isFinite_of_isDegree hb) (by linarith) (by linarith)
  obtain ⟨-, h₁⟩ := abs_sub_le_iff.mp hinner
  obtain ⟨-, h₂⟩ := abs_sub_le_iff.mp herror
  linarith

/-- The cross products of the quotients with parameter two. -/
theorem hamacher2_cross : (a * b).value * (Binary64.one + a * b).value ≤
    (a + b).value * (Binary64.two - a - b + a * b).value := by
  obtain ⟨hna, ha₀, ha₁⟩ := Binary64.isDegree_iff.mp ha
  obtain ⟨hnb, hb₀, hb₁⟩ := Binary64.isDegree_iff.mp hb
  have hprod := isDegree_product ha hb
  obtain ⟨hnp, hp₀, hp₁⟩ := Binary64.isDegree_iff.mp hprod
  obtain ⟨hs₀, hs₂⟩ := value_sum_bounds ha hb
  obtain ⟨hfz, hz₀, hz₂, -⟩ := two_sub_sub ha hb
  have hfp := Binary64.isFinite_of_isDegree hprod
  have htwice := two_mul_value_product_le_sum ha hb
  have hF := Binary64.isNearest_add Binary64.isFinite_one hfp
  rw [Binary64.value_one] at hF
  have hF₀ := hF.nonneg (by linarith)
  have hF₂ := hF.le_two (by linarith)
  have hH := Binary64.isNearest_add hfz hfp
  have hH_ge := hH.value_ge hnp (by linarith)
  rcases le_total (2 - 1 / 2 ^ 27) (a.value + b.value) with hnear | hfar
  · -- the denominator of the disjunction is its numerator
    have hproduct := value_product_of_near_two ha hb hnear
    have hFs : (Binary64.one + a * b).value = (a + b).value := by
      have hsum := isNearest_sum ha hb
      rw [hproduct, add_sub_cancel] at hF
      exact le_antisymm (hF.mono hsum le_rfl) (hsum.mono hF le_rfl)
    rw [hFs, mul_comm]
    exact mul_le_mul_of_nonneg_left hH_ge hs₀
  rcases le_total 1 ((Binary64.two - a - b).value + (a * b).value) with hlarge | hsmall
  · -- the denominator of the conjunction is at least one
    have hH₁ := hH.one_le hlarge
    calc (a * b).value * (Binary64.one + a * b).value
        ≤ (a * b).value * 2 := mul_le_mul_of_nonneg_left hF₂ hp₀
      _ ≤ (a + b).value * 1 := by linarith
      _ ≤ (a + b).value * (Binary64.two - a - b + a * b).value :=
        mul_le_mul_of_nonneg_left hH₁ hs₀
  · -- one degree is close to one, the other one is not
    have hq₀ := mul_nonneg ha₀ hb₀
    have hgap₀ := mul_nonneg (sub_nonneg.mpr ha₁) (sub_nonneg.mpr hb₁)
    have hz := two_sub_sub_error ha hb
    obtain ⟨hp_le, hp_ge⟩ := abs_sub_le_iff.mp (product_error ha hb)
    obtain ⟨-, hs_ge⟩ := abs_sub_le_iff.mp (sum_error ha hb)
    obtain ⟨hF_le, -⟩ := abs_sub_le_iff.mp (hF.error_le_of_le_two (by linarith) (by linarith))
    obtain ⟨-, hH_ge'⟩ := abs_sub_le_iff.mp (hH.error_le_of_le_one (by linarith) hsmall)
    have hp_half : (a * b).value ≤ (a.value + b.value) / 2 := by
      linarith [value_product_le_left ha hb, value_product_le_right ha hb]
    exact cross_le_of_half (by linarith) hfar hp_half hF₀ (by linarith) (by linarith) (by linarith)

theorem hamacher2_ordered : Ordered (Hamacher2.conjunction (.float a) (.float b))
    (Hamacher2.disjunction (.float a) (.float b)) := by
  have hprod := isDegree_product ha hb
  obtain ⟨-, hp₀, hp₁⟩ := Binary64.isDegree_iff.mp hprod
  obtain ⟨hfin, hpos⟩ := hamacher2_denominator_pos ha hb
  have hden := Binary64.isNearest_add Binary64.isFinite_one (Binary64.isFinite_of_isDegree hprod)
  rw [Binary64.value_one] at hden
  have hone := hden.one_le (by linarith)
  have hfin' := hden.isFinite (by linarith) (by linarith)
  have hfp := Binary64.isFinite_of_isDegree hprod
  have hfs := isFinite_sum ha hb
  exact .of_value_le (quotient_eq hfp hfin hpos.ne') (quotient_eq hfs hfin' (by linarith))
    (Binary64.clamped_ne_nan (Binary64.isNearest_div hfp hfin hpos.ne').ne_nan)
    (Binary64.clamped_ne_nan (Binary64.isNearest_div hfs hfin' (by linarith)).ne_nan)
    (value_clamped_quotient_le hfp hfin hfs hfin' hpos (by linarith) (hamacher2_cross ha hb))

/-! ## Parameter zero -/

/-- Doubling is exact, so that `2ab` is rounded once. -/
theorem isNearest_twice_product :
    (Binary64.two * a * b).IsFinite ∧
      (Binary64.two * a * b).IsNearest (2 * (a.value * b.value)) := by
  obtain ⟨hna, ha₀, ha₁⟩ := Binary64.isDegree_iff.mp ha
  obtain ⟨-, hb₀, hb₁⟩ := Binary64.isDegree_iff.mp hb
  have htwice := Binary64.isNearest_mul Binary64.isFinite_two (Binary64.isFinite_of_isDegree ha)
  rw [Binary64.value_two] at htwice
  obtain ⟨y, hy, hvalue⟩ := Binary64.exists_value_eq_two_mul hna ha₀ (by linarith)
  have hexact := htwice.value_eq hy hvalue.symm
  have hprod := Binary64.isNearest_mul (htwice.isFinite (by linarith) (by linarith))
    (Binary64.isFinite_of_isDegree hb)
  have hq₀ := mul_nonneg ha₀ hb₀
  have hq₁ := mul_le_one₀ ha₁ hb₀ hb₁
  rw [hexact, hvalue, mul_assoc] at hprod
  exact ⟨hprod.isFinite (by linarith) (by linarith), hprod⟩

/-- What is subtracted from the sum, in the numerator and in the denominator, is no larger. -/
theorem value_twice_product_le_sum : (Binary64.two * a * b).value ≤ (a + b).value := by
  obtain ⟨-, ha₀, ha₁⟩ := Binary64.isDegree_iff.mp ha
  obtain ⟨-, hb₀, hb₁⟩ := Binary64.isDegree_iff.mp hb
  refine (isNearest_twice_product ha hb).2.mono (isNearest_sum ha hb) ?_
  linarith [mul_nonneg ha₀ (sub_nonneg.mpr hb₁), mul_nonneg hb₀ (sub_nonneg.mpr ha₁)]

/-- Small degrees: the numerator of the disjunction and the denominator of the conjunction are not
much less than the sum, and the product is at most half the square of the sum. -/
theorem hamacher0_cross_of_small (h : a.value + b.value ≤ 1 / 16) :
    (a * b).value * (Binary64.one - a * b).value ≤
      (a + b - Binary64.two * a * b).value * (a + b - a * b).value := by
  obtain ⟨-, ha₀, -⟩ := Binary64.isDegree_iff.mp ha
  obtain ⟨-, hb₀, -⟩ := Binary64.isDegree_iff.mp hb
  have hprod := isDegree_product ha hb
  obtain ⟨-, hp₀, hp₁⟩ := Binary64.isDegree_iff.mp hprod
  obtain ⟨-, hE₀, hE₁⟩ := Binary64.isDegree_iff.mp (isDegree_complement hprod)
  obtain ⟨hft, ht⟩ := isNearest_twice_product ha hb
  obtain ⟨hs₀, hs₂⟩ := value_sum_bounds ha hb
  have hfs := isFinite_sum ha hb
  have hfp := Binary64.isFinite_of_isDegree hprod
  have hq₀ := mul_nonneg ha₀ hb₀
  have hq : a.value * b.value ≤ (a.value + b.value) ^ 2 / 4 := by
    linarith [sq_nonneg (a.value - b.value)]
  have hsq : (a.value + b.value) ^ 2 ≤ (a.value + b.value) / 16 := by nlinarith
  have ht₀ := ht.nonneg (by linarith)
  have ht_le := ht.value_le_two_mul (by linarith)
  have hp_le := (isNearest_product ha hb).value_le_two_mul hq₀
  -- rounding takes less than a sixteenth of a sum or difference
  have hs := Binary64.mul_le_value_add (Binary64.isFinite_of_isDegree ha)
    (Binary64.isFinite_of_isDegree hb) (by linarith) (by linarith)
  have hN := Binary64.mul_le_value_sub hfs hft (value_twice_product_le_sum ha hb) (by linarith)
  have hD := Binary64.mul_le_value_sub hfs hfp
    (by linarith [two_mul_value_product_le_sum ha hb]) (by linarith)
  have hN' : 3 / 4 * (a.value + b.value) ≤ (a + b - Binary64.two * a * b).value := by linarith
  have hD' : 3 / 4 * (a.value + b.value) ≤ (a + b - a * b).value := by linarith
  calc (a * b).value * (Binary64.one - a * b).value
      ≤ (a * b).value * 1 := mul_le_mul_of_nonneg_left hE₁ hp₀
    _ ≤ 3 / 4 * (a.value + b.value) * (3 / 4 * (a.value + b.value)) := by nlinarith
    _ ≤ (a + b - Binary64.two * a * b).value * (a + b - a * b).value :=
      mul_le_mul hN' hD' (by linarith) (by linarith)

/-- The cross products of the quotients with parameter zero. -/
theorem hamacher0_cross (h : a.value + b.value ≤ 2 - 1 / 2 ^ 25) :
    (a * b).value * (Binary64.one - a * b).value ≤
      (a + b - Binary64.two * a * b).value * (a + b - a * b).value := by
  rcases le_total (a.value + b.value) (1 / 16) with hsmall | hlarge
  · exact hamacher0_cross_of_small ha hb hsmall
  obtain ⟨-, ha₀, ha₁⟩ := Binary64.isDegree_iff.mp ha
  obtain ⟨-, hb₀, hb₁⟩ := Binary64.isDegree_iff.mp hb
  have hprod := isDegree_product ha hb
  obtain ⟨-, hp₀, hp₁⟩ := Binary64.isDegree_iff.mp hprod
  obtain ⟨hft, ht⟩ := isNearest_twice_product ha hb
  obtain ⟨hs₀, hs₂⟩ := value_sum_bounds ha hb
  have hfs := isFinite_sum ha hb
  have hfp := Binary64.isFinite_of_isDegree hprod
  have hq₀ := mul_nonneg ha₀ hb₀
  have hq₁ := mul_le_one₀ ha₁ hb₀ hb₁
  have ht₀ := ht.nonneg (by linarith)
  obtain ⟨hs_le, hs_ge⟩ := abs_sub_le_iff.mp (sum_error ha hb)
  obtain ⟨hp_le, hp_ge⟩ := abs_sub_le_iff.mp (product_error ha hb)
  obtain ⟨ht_le, ht_ge⟩ := abs_sub_le_iff.mp (ht.error_le_of_le_two (by linarith) (by linarith))
  have hcomplement := Binary64.isNearest_sub Binary64.isFinite_one hfp
  rw [Binary64.value_one] at hcomplement
  obtain ⟨hE_le, hE_ge⟩ := abs_sub_le_iff.mp
    (hcomplement.error_le_of_le_one (by linarith) (by linarith))
  obtain ⟨hN_le, hN_ge⟩ := abs_sub_le_iff.mp
    (Binary64.abs_value_sub_sub_le hfs hft (value_twice_product_le_sum ha hb) (by linarith))
  obtain ⟨hD_le, hD_ge⟩ := abs_sub_le_iff.mp (Binary64.abs_value_sub_sub_le hfs hfp
    (by linarith [two_mul_value_product_le_sum ha hb]) (by linarith))
  refine cross_le_of_errors hq₀ (by linarith [sq_nonneg (a.value - b.value)]) hlarge h ?_
    (product_error ha hb) ?_ ?_ ?_
  · linarith [mul_nonneg (sub_nonneg.mpr ha₁) (sub_nonneg.mpr hb₁)]
  · exact abs_le.mpr ⟨by linarith, by linarith⟩
  · exact abs_le.mpr ⟨by linarith, by linarith⟩
  · exact abs_le.mpr ⟨by linarith, by linarith⟩

/-- A limit stands in only where it is on the right side. -/
theorem hamacher0_ordered (h : a.value + b.value ≤ 2 - 1 / 2 ^ 25) :
    Ordered (Hamacher0.conjunction (.float a) (.float b))
      (Hamacher0.disjunction (.float a) (.float b)) := by
  have hprod := isDegree_product ha hb
  have hfp := Binary64.isFinite_of_isDegree hprod
  have hfD := isFinite_sum_sub_product ha hb
  have hfN := isFinite_sum_sub_twice_product ha hb
  have hfE := Binary64.isFinite_of_isDegree (isDegree_complement hprod)
  obtain ⟨-, hE₀, -⟩ := Binary64.isDegree_iff.mp (isDegree_complement hprod)
  have hD₀ : 0 ≤ (a + b - a * b).value := by
    refine (Binary64.isNearest_sub (isFinite_sum ha hb) hfp).nonneg ?_
    linarith [two_mul_value_product_le_sum ha hb, (Binary64.isDegree_iff.mp hprod).2.1]
  obtain ⟨x, hx, hxdeg⟩ := hamacher0_conjunction ha hb
  obtain ⟨y, hy, hydeg⟩ := hamacher0_disjunction ha hb
  obtain ⟨hnx, -, hx₁⟩ := Binary64.isDegree_iff.mp hxdeg
  obtain ⟨hny, hy₀, -⟩ := Binary64.isDegree_iff.mp hydeg
  have hxeq := hx.symm.trans (guarded_eq hfD hfp)
  have hyeq := hy.symm.trans (guarded_eq hfE hfN)
  refine .of_value_le hx hy hnx hny ?_
  by_cases hD : (a + b - a * b).value = 0
  · rw [if_pos hD] at hxeq
    obtain rfl : x = .zero := Number.float.inj (Except.ok.inj hxeq)
    rwa [Binary64.value_zero]
  by_cases hE : (Binary64.one - a * b).value = 0
  · rw [if_pos hE] at hyeq
    obtain rfl : y = .one := Number.float.inj (Except.ok.inj hyeq)
    rwa [Binary64.value_one]
  · rw [if_neg hD] at hxeq
    rw [if_neg hE] at hyeq
    obtain rfl := Number.float.inj (Except.ok.inj hxeq)
    obtain rfl := Number.float.inj (Except.ok.inj hyeq)
    exact value_clamped_quotient_le hfp hfD hfN hfE (hD₀.lt_of_ne' hD) (hE₀.lt_of_ne' hE)
      (hamacher0_cross ha hb h)

end Degrees

/-! ## The catalogue as a whole -/

/-- **Conjunctions lie below disjunctions**: on doubles in `[0, 1]` both hooks of every set of the
catalogue give doubles, and that of the conjunction is at most that of the disjunction.  For
Hamacher's set with parameter `0` this holds up to `a + b = 2 - 2⁻²⁵`. -/
theorem conjunction_le_disjunction {o : Opset} (ho : o ∈ all) (ha : a.isDegree = true)
    (hb : b.isDegree = true)
    (h : o = hamacher0 → a.value + b.value ≤ 2 - 1 / 2 ^ 25) :
    Ordered (o.rawAnd (.float a) (.float b)) (o.rawOr (.float a) (.float b)) := by
  simp only [all, List.mem_cons, List.not_mem_nil, or_false] at ho
  rcases ho with rfl | rfl | rfl | rfl | rfl
  · exact yager1_ordered ha hb
  · exact yagerInf_ordered ha hb
  · exact hamacher0_ordered ha hb (h rfl)
  · exact hamacher1_ordered ha hb
  · exact hamacher2_ordered ha hb

/-- The set with parameter zero at `0.9406977951970535` and `1`. -/
theorem hamacher0_ordered_offGrid :
    hamacher0 ∈ all ∧ offGrid.isDegree = true ∧ Binary64.one.isDegree = true ∧
    offGrid.value + Binary64.one.value ≤ 2 - 1 / 2 ^ 25 ∧
    Ordered (hamacher0.rawAnd (.float offGrid) (.float .one))
      (hamacher0.rawOr (.float offGrid) (.float .one)) := by
  have hmem : hamacher0 ∈ all := by simp [all]
  have hoff : offGrid.isDegree = true := by decide +kernel
  have hone : Binary64.one.isDegree = true := by decide +kernel
  have hsum : offGrid.value + Binary64.one.value ≤ 2 - 1 / 2 ^ 25 := by decide +kernel
  exact ⟨hmem, hoff, hone, hsum, conjunction_le_disjunction hmem hoff hone fun _ => hsum⟩

/-- The double `1 - 3 · 2⁻⁵³`. -/
def nearOne : Binary64 := .signed false ⟨1023 * binade - 3, by decide⟩

/-- **With parameter zero the order fails next to one**: at `1 - 3 · 2⁻⁵³` and `1` the conjunction
is `1 - 2⁻⁵²` and the disjunction is the double nearest to two thirds. -/
theorem hamacher0_order_fails :
    hamacher0 ∈ all ∧ nearOne.isDegree = true ∧ Binary64.one.isDegree = true ∧
    hamacher0.rawAnd (.float nearOne) (.float .one) =
      .ok (.float (.signed false ⟨1023 * binade - 2, by decide⟩)) ∧
    hamacher0.rawOr (.float nearOne) (.float .one) =
      .ok (.float (.signed false ⟨4604180019048437077, by decide⟩)) ∧
    ¬ Ordered (hamacher0.rawAnd (.float nearOne) (.float .one))
      (hamacher0.rawOr (.float nearOne) (.float .one)) := by
  have hand : hamacher0.rawAnd (.float nearOne) (.float .one) =
      .ok (.float (.signed false ⟨1023 * binade - 2, by decide⟩)) := by decide +kernel
  have hor : hamacher0.rawOr (.float nearOne) (.float .one) =
      .ok (.float (.signed false ⟨4604180019048437077, by decide⟩)) := by decide +kernel
  refine ⟨by simp [all], by decide +kernel, by decide +kernel, hand, hor, ?_⟩
  rintro ⟨x, y, hx, hy, hle⟩
  rw [hand] at hx
  rw [hor] at hy
  obtain rfl := Number.float.inj (Except.ok.inj hx)
  obtain rfl := Number.float.inj (Except.ok.inj hy)
  exact absurd hle (by decide)

end Catalogue

end FuzzyLogic
