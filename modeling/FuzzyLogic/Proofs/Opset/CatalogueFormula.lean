import FuzzyLogic.Proofs.Binary64.Rounding
import FuzzyLogic.Proofs.Expr.Connective
import FuzzyLogic.Proofs.Opset.CatalogueOrder
import Mathlib.Algebra.Order.Group.MinMax

/-!
# Proofs/Opset/CatalogueFormula — what the catalogue computes, as formulas on rationals

On degrees every hook of the catalogue is its published formula with a rounding around every
operation.  `Computes o formula` says that the two hooks of a set that join degrees give the degree
whose value is the formula of the values of the operands.  So signs of zero play no part, and laws of
a set are laws of rational formulas.
-/

namespace FuzzyLogic

namespace Catalogue

open Binary64 (rounded)

/-! ## Formulas -/

/-- The nearest rational of `[0, 1]`. -/
def unit (q : ℚ) : ℚ := min (max q 0) 1

theorem unit_of_mem {q : ℚ} (h₀ : 0 ≤ q) (h₁ : q ≤ 1) : unit q = q := by
  rw [unit, max_eq_left h₀, min_eq_left h₁]

theorem unit_of_one_le {q : ℚ} (h : 1 ≤ q) : unit q = 1 := min_eq_right (h.trans (le_max_left q 0))

/-- Nothing is moved apart. -/
theorem abs_unit_sub_le (p q : ℚ) : |unit p - unit q| ≤ |p - q| := by
  refine (abs_min_sub_min_le_max _ _ _ _).trans (max_le (abs_max_sub_max_le_abs p q 0) ?_)
  rw [sub_self, abs_zero]
  exact abs_nonneg _

/-- `min (p + q) 1` and `max (p + q) 1 - 1` -/
def Yager1.formula : Connective → ℚ → ℚ → ℚ
  | .disjunction, p, q => min (rounded (p + q)) 1
  | .conjunction, p, q => rounded (max (rounded (p + q)) 1 - 1)

/-- `max p q` and `min p q` -/
def YagerInf.formula : Connective → ℚ → ℚ → ℚ
  | .disjunction, p, q => max p q
  | .conjunction, p, q => min p q

/-- `(p + q - 2pq) / (1 - pq)` and `pq / (p + q - pq)`, and the limits.  Doubling is exact, so that
`2pq` is rounded once. -/
def Hamacher0.formula : Connective → ℚ → ℚ → ℚ
  | .disjunction, p, q =>
    if rounded (1 - rounded (p * q)) = 0 then 1
    else unit (rounded (rounded (rounded (p + q) - rounded (2 * (p * q))) /
      rounded (1 - rounded (p * q))))
  | .conjunction, p, q =>
    if rounded (rounded (p + q) - rounded (p * q)) = 0 then 0
    else unit (rounded (rounded (p * q) / rounded (rounded (p + q) - rounded (p * q))))

/-- `p + q - pq` and `pq` -/
def Hamacher1.formula : Connective → ℚ → ℚ → ℚ
  | .disjunction, p, q => unit (rounded (rounded (p + q) - rounded (p * q)))
  | .conjunction, p, q => rounded (p * q)

/-- `(p + q) / (1 + pq)` and `pq / (((2 - p) - q) + pq)` -/
def Hamacher2.formula : Connective → ℚ → ℚ → ℚ
  | .disjunction, p, q => unit (rounded (rounded (p + q) / rounded (1 + rounded (p * q))))
  | .conjunction, p, q =>
    unit (rounded (rounded (p * q) / rounded (rounded (rounded (2 - p) - q) + rounded (p * q))))

/-! ## Outcomes -/

/-- The outcome is a degree of some value. -/
def Gives (r : Except Fault Number) (q : ℚ) : Prop :=
  ∃ x : Binary64, r = .ok (.float x) ∧ x.isDegree = true ∧ x.value = q

/-- The hooks that join degrees give what a formula says of the values of degrees. -/
def Computes (o : Opset) (formula : Connective → ℚ → ℚ → ℚ) : Prop :=
  ∀ (c : Connective) {a b : Binary64}, a.isDegree = true → b.isDegree = true →
    Gives (c.hook o (.float a) (.float b)) (formula c a.value b.value)

variable {a b x : Binary64} {r : Except Fault Number} {p q : ℚ}

/-- A degree that is known to be the outcome, with its value. -/
theorem IsDegreeOutcome.gives (h : IsDegreeOutcome r) (hr : r = .ok (.float x))
    (hx : x.value = q) : Gives r q := by
  obtain ⟨y, hy, hdeg⟩ := h
  obtain rfl : y = x := Number.float.inj (Except.ok.inj (hy.symm.trans hr))
  exact ⟨y, hy, hdeg, hx⟩

theorem value_clamped_eq_unit (hx : x ≠ .nan) : (Membership.clamped x).value = unit x.value :=
  Binary64.value_clamped hx

/-- Clamped quotients are the quotients of the values. -/
theorem value_clamped_quotient {n d : Binary64} (hn : n.IsFinite) (hd : d.IsFinite)
    (h0 : d.value ≠ 0) :
    (Membership.clamped (n / d)).value = unit (rounded (n.value / d.value)) := by
  rw [value_clamped_eq_unit (Binary64.isNearest_div hn hd h0).ne_nan, Binary64.value_div hn hd h0]

/-! ## The hooks -/

/-- Every set of the catalogue has the standard negation. -/
theorem rawNot_float {o : Opset} (ho : o ∈ all) (x : Binary64) :
    o.rawNot (.float x) = .ok (.float (Binary64.one - x)) := by
  rcases mem_all.mp ho with rfl | rfl | rfl | rfl | rfl <;> rfl

theorem value_complement (hx : x.isDegree = true) :
    (Binary64.one - x).value = rounded (1 - x.value) := by
  rw [Binary64.value_sub Binary64.isFinite_one (Binary64.isFinite_of_isDegree hx),
    Binary64.value_one]

theorem gives_negation {o : Opset} (ho : o ∈ all) (hx : x.isDegree = true) :
    Gives (o.rawNot (.float x)) (rounded (1 - x.value)) :=
  ⟨_, rawNot_float ho x, isDegree_complement hx, value_complement hx⟩

section Degrees

variable (ha : a.isDegree = true) (hb : b.isDegree = true)
include ha hb

theorem value_sum : (a + b).value = rounded (a.value + b.value) :=
  (isNearest_sum ha hb).value_eq_rounded

theorem value_product : (a * b).value = rounded (a.value * b.value) :=
  (isNearest_product ha hb).value_eq_rounded

theorem value_sum_sub_product :
    (a + b - a * b).value = rounded (rounded (a.value + b.value) - rounded (a.value * b.value)) := by
  rw [Binary64.value_sub (isFinite_sum ha hb)
    (Binary64.isFinite_of_isDegree (isDegree_product ha hb)), value_sum ha hb, value_product ha hb]

theorem value_one_sub_product :
    (Binary64.one - a * b).value = rounded (1 - rounded (a.value * b.value)) := by
  rw [Binary64.value_sub Binary64.isFinite_one
    (Binary64.isFinite_of_isDegree (isDegree_product ha hb)), Binary64.value_one,
    value_product ha hb]

theorem value_sum_sub_twice_product :
    (a + b - Binary64.two * a * b).value =
      rounded (rounded (a.value + b.value) - rounded (2 * (a.value * b.value))) := by
  obtain ⟨hfin, htwice⟩ := isNearest_twice_product ha hb
  rw [Binary64.value_sub (isFinite_sum ha hb) hfin, value_sum ha hb, htwice.value_eq_rounded]

theorem value_one_add_product :
    (Binary64.one + a * b).value = rounded (1 + rounded (a.value * b.value)) := by
  rw [Binary64.value_add Binary64.isFinite_one
    (Binary64.isFinite_of_isDegree (isDegree_product ha hb)), Binary64.value_one,
    value_product ha hb]

theorem value_two_sub_sub_add_product :
    (Binary64.two - a - b + a * b).value =
      rounded (rounded (rounded (2 - a.value) - b.value) + rounded (a.value * b.value)) := by
  obtain ⟨-, ha₀, ha₁⟩ := Binary64.isDegree_iff.mp ha
  have hfa := Binary64.isFinite_of_isDegree ha
  have houter := Binary64.isNearest_sub Binary64.isFinite_two hfa
  rw [Binary64.value_two] at houter
  rw [Binary64.value_add (two_sub_sub ha hb).1
      (Binary64.isFinite_of_isDegree (isDegree_product ha hb)),
    Binary64.value_sub (houter.isFinite (by linarith) (by linarith))
      (Binary64.isFinite_of_isDegree hb), houter.value_eq_rounded, value_product ha hb]

end Degrees

theorem computes_yager1 : Computes yager1 Yager1.formula := by
  intro c a b ha hb
  have hone : Binary64.one ≠ .nan := by decide
  have hsum := (isNearest_sum ha hb).ne_nan
  cases c with
  | disjunction =>
    refine (yager1_disjunction ha hb).gives (congrArg Except.ok (Number.min_float hsum hone)) ?_
    rw [Binary64.value_min hsum hone, Binary64.value_one, value_sum ha hb, Yager1.formula]
  | conjunction =>
    refine (yager1_conjunction ha hb).gives (yager1_conjunction_eq ha hb) ?_
    rw [(isNearest_yager1_conjunction ha hb).value_eq_rounded, value_sum ha hb, Yager1.formula]

theorem computes_yagerInf : Computes yagerInf YagerInf.formula := by
  intro c a b ha hb
  obtain ⟨hna, -, -⟩ := Binary64.isDegree_iff.mp ha
  obtain ⟨hnb, -, -⟩ := Binary64.isDegree_iff.mp hb
  cases c with
  | disjunction =>
    exact (yagerInf_disjunction ha hb).gives (congrArg Except.ok (Number.max_float hna hnb))
      (Binary64.value_max hna hnb)
  | conjunction =>
    exact (yagerInf_conjunction ha hb).gives (congrArg Except.ok (Number.min_float hna hnb))
      (Binary64.value_min hna hnb)

/-- Guarded quotients are the quotients of the values, or the limit. -/
theorem value_guarded {n d limit : Binary64} (hn : n.IsFinite) (hd : d.IsFinite) :
    (if d.value = 0 then limit else Membership.clamped (n / d)).value =
      if d.value = 0 then limit.value else unit (rounded (n.value / d.value)) := by
  by_cases h : d.value = 0
  · rw [if_pos h, if_pos h]
  · rw [if_neg h, if_neg h, value_clamped_quotient hn hd h]

theorem computes_hamacher0 : Computes hamacher0 Hamacher0.formula := by
  intro c a b ha hb
  have hprod := isDegree_product ha hb
  have hfp := Binary64.isFinite_of_isDegree hprod
  cases c with
  | disjunction =>
    have hfd := Binary64.isFinite_of_isDegree (isDegree_complement hprod)
    have hfn := isFinite_sum_sub_twice_product ha hb
    refine (hamacher0_disjunction ha hb).gives (guarded_eq hfd hfn) ?_
    rw [value_guarded hfn hfd, value_one_sub_product ha hb, value_sum_sub_twice_product ha hb,
      Binary64.value_one, Hamacher0.formula]
  | conjunction =>
    have hfd := isFinite_sum_sub_product ha hb
    refine (hamacher0_conjunction ha hb).gives (guarded_eq hfd hfp) ?_
    rw [value_guarded hfp hfd, value_sum_sub_product ha hb, value_product ha hb,
      Binary64.value_zero, Hamacher0.formula]

theorem computes_hamacher1 : Computes hamacher1 Hamacher1.formula := by
  intro c a b ha hb
  cases c with
  | disjunction =>
    have hdiff := (isFinite_sum_sub_product ha hb).ne_nan
    refine (hamacher1_disjunction ha hb).gives (congrArg Except.ok (clamp_float hdiff)) ?_
    rw [value_clamped_eq_unit hdiff, value_sum_sub_product ha hb, Hamacher1.formula]
  | conjunction => exact (hamacher1_conjunction ha hb).gives rfl (value_product ha hb)

theorem computes_hamacher2 : Computes hamacher2 Hamacher2.formula := by
  intro c a b ha hb
  have hprod := isDegree_product ha hb
  have hfp := Binary64.isFinite_of_isDegree hprod
  cases c with
  | disjunction =>
    obtain ⟨-, hp₀, hp₁⟩ := Binary64.isDegree_iff.mp hprod
    have hfs := isFinite_sum ha hb
    have hden := Binary64.isNearest_add Binary64.isFinite_one hfp
    rw [Binary64.value_one] at hden
    have hfd := hden.isFinite (by linarith) (by linarith)
    have hd : (Binary64.one + a * b).value ≠ 0 := by linarith [hden.one_le (by linarith)]
    refine (hamacher2_disjunction ha hb).gives (quotient_eq hfs hfd hd) ?_
    rw [value_clamped_quotient hfs hfd hd, value_sum ha hb, value_one_add_product ha hb,
      Hamacher2.formula]
  | conjunction =>
    obtain ⟨hfd, hpos⟩ := hamacher2_denominator_pos ha hb
    refine (hamacher2_conjunction ha hb).gives (quotient_eq hfp hfd hpos.ne') ?_
    rw [value_clamped_quotient hfp hfd hpos.ne', value_two_sub_sub_add_product ha hb,
      value_product ha hb, Hamacher2.formula]

end Catalogue

end FuzzyLogic
