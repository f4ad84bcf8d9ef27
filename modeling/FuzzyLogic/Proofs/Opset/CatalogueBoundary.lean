import FuzzyLogic.Proofs.Opset.CatalogueSymmetry

/-!
# Proofs/Opset/CatalogueBoundary — zero and one as operands

Joining with zero is exact under every set of the catalogue, and joining with one is off by `2⁻⁵²`
at most, but for one operation.  `Boundary` lists the laws of a formula.

The conjunctions of Hamacher's sets divide by something that would be one, and that rounding puts
in `[1 - 2⁻⁵³, 1]`, since the sum `1 + 2⁻⁵³` is rounded down (`rounded_near_one`).

The disjunction with parameter `0` divides two differences that would both be `1 - x`.  They are
whole steps of `2⁻⁵³`, and rounding leaves them apart by one step at most (`exists_steps`).  That is
little as long as `1 - x` is many steps, and all there is next to one.  It happens where the sum
`x + 1` is rounded down, and above three fifths it is then too much (`hamacher0_or_one_far`).
-/

namespace FuzzyLogic

namespace Catalogue

open Binary64 (rounded rounded_eq_of_steps IsValue)

variable {x : Binary64} {o : Opset} {p q d : ℚ} {f : Connective → ℚ → ℚ → ℚ} {C : Prop}

/-! ## Laws of formulas -/

/-- The laws of a formula whose second operand is zero or one, where `C` says that a disjunction with
one is near one. -/
structure Boundary (f : Connective → ℚ → ℚ → ℚ) (C : Prop) (p : ℚ) : Prop where
  or_zero : f .disjunction p 0 = p
  and_zero : f .conjunction p 0 = 0
  and_one : |f .conjunction p 1 - p| ≤ 1 / 2 ^ 52
  or_one_scaled : (1 - p) * |f .disjunction p 1 - 1| ≤ 1 / 2 ^ 52
  or_one : |f .disjunction p 1 - 1| ≤ 1 / 2 ^ 52 ↔ C

/-- The formula with its operands exchanged. -/
def exchanged (f : Connective → ℚ → ℚ → ℚ) (c : Connective) (p q : ℚ) : ℚ := f c q p

/-- The laws of a symmetric formula hold in both orders. -/
theorem Boundary.both (h : Boundary f C p) (hsymm : ∀ c, Symmetric (f c)) :
    Boundary f C p ∧ Boundary (exchanged f) C p := by
  have hsame : exchanged f = f := funext fun c => funext fun p => funext fun q => hsymm c q p
  rw [hsame]
  exact ⟨h, h⟩

/-- A disjunction with one that is near one is so when scaled down. -/
theorem Boundary.of_near (hC : C) (hp₀ : 0 ≤ p) (or_zero : f .disjunction p 0 = p)
    (and_zero : f .conjunction p 0 = 0) (and_one : |f .conjunction p 1 - p| ≤ 1 / 2 ^ 52)
    (or_one : |f .disjunction p 1 - 1| ≤ 1 / 2 ^ 52) : Boundary f C p where
  or_zero := or_zero
  and_zero := and_zero
  and_one := and_one
  or_one_scaled := (mul_le_of_le_one_left (abs_nonneg _) (by linarith)).trans or_one
  or_one := iff_of_true or_one hC

theorem abs_sub_self_le (q : ℚ) : |q - q| ≤ 1 / 2 ^ 52 := by
  rw [sub_self, abs_zero]
  norm_num

/-! ## Rounding next to one -/

theorem isValue_half : IsValue (1 / 2) := by
  have h := Binary64.isValue_steps (j := 1) (n := 1) (by norm_num) (by norm_num) (by norm_num)
  norm_num at h ⊢
  exact h

theorem isValue_below_one : IsValue (1 - 1 / 2 ^ 53) := by
  have h := Binary64.isValue_steps (j := 53) (n := 2 ^ 53 - 1) (by norm_num) (by norm_num)
    (by norm_num)
  norm_num at h ⊢
  exact h

/-- The middle between one and the next double is rounded down to one. -/
theorem rounded_one_add : rounded (1 + 1 / 2 ^ 53) = 1 := by decide +kernel

/-- One step for two fifths is two and a half for one, and is rounded to two. -/
theorem rounded_two_steps_below : rounded (1 - 5 / 2 ^ 54) = 1 - 1 / 2 ^ 52 := by decide +kernel

theorem le_rounded_two_fifths : 2 / 5 ≤ rounded (2 / 5) := by decide +kernel

/-- What is off one by `2⁻⁵³` is not rounded past it. -/
theorem rounded_near_one (h : |q - 1| ≤ 1 / 2 ^ 53) :
    1 - 1 / 2 ^ 53 ≤ rounded q ∧ rounded q ≤ 1 := by
  obtain ⟨hle, hge⟩ := abs_sub_le_iff.mp h
  refine ⟨isValue_below_one.le_rounded (by linarith), ?_⟩
  rw [← rounded_one_add]
  exact Binary64.rounded_mono (by linarith)

/-- Taking one off what is one at least and two at most is exact. -/
theorem rounded_sub_one_eq (hq : IsValue q) (hq₁ : 1 ≤ q) (hq₂ : q ≤ 2) :
    rounded (q - 1) = q - 1 := by
  obtain ⟨n, hn⟩ := hq.exists_steps (j := 52) (by norm_num) (by norm_num; exact hq₁)
  norm_num at hn
  have hlow : 2 ^ 52 ≤ n := by
    have : (2 ^ 52 : ℚ) ≤ n := by linarith
    exact_mod_cast this
  have hhigh : n ≤ 2 ^ 53 := by
    have : (n : ℚ) ≤ 2 ^ 53 := by linarith
    exact_mod_cast this
  refine rounded_eq_of_steps (j := 52) (n := n - 2 ^ 52) (by norm_num) (by omega) ?_ (by linarith)
  rw [Nat.cast_sub hlow, hn]
  norm_num
  ring

theorem abs_unit_sub_one_le {r ε : ℚ} (hε : 0 ≤ ε) (h : 1 - ε ≤ r) : |unit r - 1| ≤ ε := by
  have hlow : 1 - ε ≤ unit r := le_min (h.trans (le_max_left r 0)) (by linarith)
  rw [abs_sub_comm, abs_of_nonneg (sub_nonneg.mpr (min_le_right _ _))]
  linarith

section Range

variable (hp₀ : 0 ≤ p) (hp₁ : p ≤ 1)
include hp₀ hp₁

theorem abs_rounded_add_one_sub_le : |rounded (p + 1) - (p + 1)| ≤ 1 / 2 ^ 53 :=
  Binary64.abs_rounded_sub_le_of_le_two (by linarith) (by linarith)

theorem abs_rounded_one_sub_le : |rounded (1 - p) - (1 - p)| ≤ 1 / 2 ^ 54 :=
  Binary64.abs_rounded_sub_le_of_le_one (by linarith) (by linarith)

theorem rounded_add_one_mem : 1 ≤ rounded (p + 1) ∧ rounded (p + 1) ≤ 2 :=
  ⟨Binary64.isValue_one.le_rounded (by linarith), Binary64.isValue_two.rounded_le (by linarith)⟩

/-- Adding one and taking the operand off again. -/
theorem rounded_add_one_sub_mem :
    1 - 1 / 2 ^ 53 ≤ rounded (rounded (p + 1) - p) ∧ rounded (rounded (p + 1) - p) ≤ 1 := by
  refine rounded_near_one ?_
  have h := abs_rounded_add_one_sub_le hp₀ hp₁
  rwa [← sub_sub] at h

/-- The sum with one is a whole number of steps of `2⁻⁵²`. -/
theorem exists_steps_sum : ∃ s : ℕ, rounded (p + 1) = s / 2 ^ 52 :=
  (Binary64.isValue_rounded _).exists_steps (by norm_num)
    (by norm_num; exact (rounded_add_one_mem hp₀ hp₁).1)

end Range

section Operand

variable (hp : IsValue p) (hp₀ : 0 ≤ p) (hp₁ : p ≤ 1)
include hp hp₀ hp₁

theorem rounded_two_mul : rounded (2 * p) = 2 * p := (hp.two_mul hp₀ (by linarith)).rounded_eq

/-- Dividing by next to one. -/
theorem abs_unit_div_sub_le (hd : 1 - 1 / 2 ^ 53 ≤ d) (hd₁ : d ≤ 1) :
    |unit (rounded (p / d)) - p| ≤ 1 / 2 ^ 52 := by
  have hpos : 0 < d := lt_of_lt_of_le (by norm_num) hd
  have hle : p ≤ p / d := by
    rw [le_div_iff₀ hpos]
    exact mul_le_of_le_one_right hp₀ hd₁
  have hclose : p / d ≤ p + 1 / (2 ^ 53 - 1) := by
    rw [div_le_iff₀ hpos]
    norm_num at hd ⊢
    nlinarith
  have hlow : p ≤ rounded (p / d) := hp.le_rounded hle
  have hhigh : unit (rounded (p / d)) ≤ p + 1 / 2 ^ 52 := by
    rcases le_total (p / d) 1 with h | h
    · have hround := (abs_sub_le_iff.mp (Binary64.abs_rounded_sub_le_of_le_one
        (hp₀.trans hle) h)).1
      rw [unit_of_mem (hp₀.trans hlow) (Binary64.rounded_le_one h)]
      norm_num at hclose hround ⊢
      linarith
    · rw [unit_of_one_le (Binary64.isValue_one.le_rounded h)]
      norm_num at hclose ⊢
      linarith
  have hunit : p ≤ unit (rounded (p / d)) := by
    rw [unit, max_eq_left (hp₀.trans hlow)]
    exact le_min hlow hp₁
  rw [abs_of_nonneg (sub_nonneg.mpr hunit)]
  linarith

end Operand

/-! ## The formulas -/

section Formulas

variable (hp : IsValue p) (hp₀ : 0 ≤ p) (hp₁ : p ≤ 1)
include hp₀ hp₁

theorem boundary_yagerInf (hC : C) : Boundary YagerInf.formula C p := by
  refine .of_near hC hp₀ (max_eq_left hp₀) (min_eq_right hp₀) ?_ ?_
  · rw [YagerInf.formula, min_eq_left hp₁]
    exact abs_sub_self_le p
  · rw [YagerInf.formula, max_eq_right hp₁]
    exact abs_sub_self_le 1

include hp

theorem boundary_yager1 (hC : C) : Boundary Yager1.formula C p := by
  obtain ⟨h₁, h₂⟩ := rounded_add_one_mem hp₀ hp₁
  refine .of_near hC hp₀ ?_ ?_ ?_ ?_
  · rw [Yager1.formula, add_zero, hp.rounded_eq, min_eq_left hp₁]
  · rw [Yager1.formula, add_zero, hp.rounded_eq, max_eq_right hp₁, sub_self,
      Binary64.rounded_zero]
  · have herror := abs_rounded_add_one_sub_le hp₀ hp₁
    rw [Yager1.formula, max_eq_left h₁, rounded_sub_one_eq (Binary64.isValue_rounded _) h₁ h₂,
      sub_right_comm, sub_sub]
    exact herror.trans (by norm_num)
  · rw [Yager1.formula, min_eq_right h₁]
    exact abs_sub_self_le 1

theorem boundary_hamacher1 (hC : C) : Boundary Hamacher1.formula C p := by
  obtain ⟨h₁, h₂⟩ := rounded_add_one_sub_mem hp₀ hp₁
  refine .of_near hC hp₀ ?_ ?_ ?_ ?_
  · rw [Hamacher1.formula, add_zero, mul_zero, Binary64.rounded_zero, sub_zero, hp.rounded_eq,
      hp.rounded_eq, unit_of_mem hp₀ hp₁]
  · rw [Hamacher1.formula, mul_zero, Binary64.rounded_zero]
  · rw [Hamacher1.formula, mul_one, hp.rounded_eq]
    exact abs_sub_self_le p
  · rw [Hamacher1.formula, mul_one, hp.rounded_eq, unit_of_mem (by linarith) h₂, abs_sub_le_iff]
    norm_num at h₁ ⊢
    constructor <;> linarith

/-- Both orders of the conjunction with parameter two divide by next to one. -/
theorem hamacher2_denominators :
    (1 - 1 / 2 ^ 53 ≤ denominator p 1 ∧ denominator p 1 ≤ 1) ∧
    1 - 1 / 2 ^ 53 ≤ denominator 1 p ∧ denominator 1 p ≤ 1 := by
  have hone : rounded (2 - 1) = 1 := by norm_num
  have houter := abs_rounded_two_sub_le hp₀ hp₁
  have hinner := abs_rounded_one_sub_le hp₀ hp₁
  obtain ⟨h₁, h₂⟩ := rounded_two_sub_mem hp₀ hp₁
  rw [denominator, denominator, mul_one, one_mul, hp.rounded_eq, hone,
    rounded_sub_one_eq (Binary64.isValue_rounded _) h₁ h₂]
  refine ⟨rounded_near_one ?_, rounded_near_one ?_⟩
  · rwa [show rounded (2 - p) - 1 + p - 1 = rounded (2 - p) - (2 - p) by ring]
  · rw [show rounded (1 - p) + p - 1 = rounded (1 - p) - (1 - p) by ring]
    exact hinner.trans (by norm_num)

theorem boundary_hamacher2 (hC : C) : Boundary Hamacher2.formula C p ∧
    Boundary (exchanged Hamacher2.formula) C p := by
  obtain ⟨hright, hleft⟩ := hamacher2_denominators hp hp₀ hp₁
  have hpos : rounded (p + 1) ≠ 0 := by linarith [(rounded_add_one_mem hp₀ hp₁).1]
  have or_zero : Hamacher2.formula .disjunction p 0 = p := by
    rw [Hamacher2.formula, add_zero, mul_zero, Binary64.rounded_zero, add_zero,
      Binary64.rounded_one, div_one, hp.rounded_eq, hp.rounded_eq, unit_of_mem hp₀ hp₁]
  have or_one : |Hamacher2.formula .disjunction p 1 - 1| ≤ 1 / 2 ^ 52 := by
    rw [Hamacher2.formula, mul_one, hp.rounded_eq, add_comm 1 p, div_self hpos,
      Binary64.rounded_one, unit_of_one_le le_rfl]
    exact abs_sub_self_le 1
  have hsymm := symmetric_hamacher2
  refine ⟨.of_near hC hp₀ or_zero ?_ ?_ or_one, .of_near hC hp₀ ?_ ?_ ?_ ?_⟩
  · rw [Hamacher2.formula, mul_zero, Binary64.rounded_zero, zero_div, Binary64.rounded_zero,
      unit_of_mem le_rfl zero_le_one]
  · rw [conjunction_eq_quotient, mul_one, hp.rounded_eq]
    exact abs_unit_div_sub_le hp hp₀ hp₁ hright.1 hright.2
  · exact (hsymm 0 p).trans or_zero
  · rw [exchanged, Hamacher2.formula, zero_mul, Binary64.rounded_zero, zero_div,
      Binary64.rounded_zero, unit_of_mem le_rfl zero_le_one]
  · rw [exchanged, conjunction_eq_quotient, one_mul, hp.rounded_eq]
    exact abs_unit_div_sub_le hp hp₀ hp₁ hleft.1 hleft.2
  · rwa [exchanged, hsymm]

/-! ## The disjunction with parameter zero -/

/-- The numerator of `p` and `1`: `p + 1 - 2p`. -/
def numerator (p : ℚ) : ℚ := rounded (rounded (p + 1) - 2 * p)

theorem disjunction_one_eq_quotient : Hamacher0.formula .disjunction p 1 =
    if rounded (1 - p) = 0 then 1 else unit (rounded (numerator p / rounded (1 - p))) := by
  rw [Hamacher0.formula, mul_one, hp.rounded_eq, rounded_two_mul hp hp₀ hp₁, numerator]

end Formulas

/-- From half on, everything is a whole number of steps of `2⁻⁵³`. -/
theorem exists_steps_of_half_le (hq : IsValue q) (h : 1 / 2 ≤ q) : ∃ n : ℕ, q = n / 2 ^ 53 :=
  hq.exists_steps (by norm_num) (by norm_num; linarith)

/-- Whole steps are divided as their numbers are. -/
theorem div_of_steps {n d : ℕ} {r t : ℚ} (hr : r = n / 2 ^ 53) (ht : t = d / 2 ^ 53) :
    r / t = n / d := by
  rw [hr, ht, div_div_div_cancel_right₀ (by positivity)]

/-- A quotient of whole steps, the denominator above by one at most. -/
theorem one_sub_le_quotient {n d : ℕ} {r t : ℚ} (hr : r = n / 2 ^ 53) (ht : t = d / 2 ^ 53)
    (hle : d ≤ n + 1) (hpos : 0 < d) : 1 - (1 / d + 1 / 2 ^ 54) ≤ rounded (r / t) := by
  have hd : (0 : ℚ) < d := by exact_mod_cast hpos
  have hle' : (d : ℚ) ≤ n + 1 := by exact_mod_cast hle
  have hlow : 1 - 1 / d ≤ (n : ℚ) / d := by
    rw [le_div_iff₀ hd, sub_mul, one_mul, one_div_mul_cancel hd.ne']
    linarith
  rw [div_of_steps hr ht]
  rcases le_total ((n : ℚ) / d) 1 with h | h
  · have hround := (abs_sub_le_iff.mp (Binary64.abs_rounded_sub_le_of_le_one
      (div_nonneg n.cast_nonneg hd.le) h)).2
    linarith
  · have hone := Binary64.isValue_one.le_rounded h
    have hε : (0 : ℚ) ≤ 1 / d + 1 / 2 ^ 54 := by positivity
    linarith

/-- Up to a quarter the denominator is above the numerator by one step at most. -/
theorem steps_le_of_le_quarter {n d s : ℕ} (hp₀ : 0 ≤ p) (h : p ≤ 1 / 4)
    (hn : numerator p = n / 2 ^ 53) (hd : rounded (1 - p) = d / 2 ^ 53)
    (hs : rounded (p + 1) = s / 2 ^ 52) : d ≤ n + 1 := by
  have hp₁ : p ≤ 1 := by linarith
  have hsum := (abs_sub_le_iff.mp (abs_rounded_add_one_sub_le hp₀ hp₁)).2
  have hgap := (abs_sub_le_iff.mp (abs_rounded_one_sub_le hp₀ hp₁)).1
  by_contra hlt
  have hfar : (n + 2 : ℚ) ≤ d := by exact_mod_cast Nat.succ_le_of_lt (not_le.mp hlt)
  rcases le_total (rounded (p + 1) - 2 * p) 1 with hle | hge
  · have hpos : 0 ≤ rounded (p + 1) - 2 * p := by linarith [(rounded_add_one_mem hp₀ hp₁).1]
    have hround : rounded (p + 1) - 2 * p - numerator p ≤ 1 / 2 ^ 54 :=
      (abs_sub_le_iff.mp (Binary64.abs_rounded_sub_le_of_le_one hpos hle)).2
    rw [hn] at hround
    rw [hd] at hgap
    rw [hs] at hsum hround
    norm_num at hsum hgap hround
    -- two steps apart, all three roundings go their whole half step, which is a matter of parity
    have hparity : (2 * d + 4 * s + 1 : ℚ) = 2 ^ 55 := by
      norm_num
      exact le_antisymm (by linarith) (by linarith)
    have : 2 * d + 4 * s + 1 = 2 ^ 55 := by exact_mod_cast hparity
    omega
  · have hone : 1 ≤ numerator p := Binary64.isValue_one.le_rounded hge
    have hgap₁ : rounded (1 - p) ≤ 1 := Binary64.rounded_le_one (by linarith)
    rw [hn] at hone
    rw [hd] at hgap₁
    norm_num at hone hgap₁
    linarith

section Steps

variable (hp : IsValue p) (hp₀ : 0 ≤ p) (hp₁ : p ≤ 1)
include hp hp₁

/-- From half on one and the operand differ by whole steps, and exactly so. -/
theorem exists_steps_gap_of_half_le (h : 1 / 2 ≤ p) :
    ∃ d : ℕ, rounded (1 - p) = d / 2 ^ 53 ∧ rounded (1 - p) = 1 - p := by
  obtain ⟨m, hm⟩ := exists_steps_of_half_le hp h
  norm_num at hm
  have hle : m ≤ 2 ^ 53 := by
    have : (m : ℚ) ≤ 2 ^ 53 := by linarith
    exact_mod_cast this
  have hsteps : 1 - p = (2 ^ 53 - m : ℕ) / 2 ^ 53 := by
    rw [Nat.cast_sub hle, hm]
    norm_num
    ring
  have hexact := rounded_eq_of_steps (by norm_num) (by omega) hsteps (by linarith)
  exact ⟨2 ^ 53 - m, hexact.trans hsteps, hexact⟩

/-- One and the operand differ by whole steps. -/
theorem exists_steps_gap : ∃ d : ℕ, rounded (1 - p) = d / 2 ^ 53 := by
  rcases le_total p (1 / 2) with h | h
  · exact exists_steps_of_half_le (Binary64.isValue_rounded _) (isValue_half.le_rounded (by linarith))
  · obtain ⟨d, hd, -⟩ := exists_steps_gap_of_half_le hp hp₁ h
    exact ⟨d, hd⟩

include hp₀

/-- From a quarter on the numerator is exact, once the sum is rounded. -/
theorem exists_steps_numerator (h : 1 / 4 ≤ p) :
    ∃ n : ℕ, numerator p = n / 2 ^ 53 ∧ rounded (p + 1) - 2 * p = n / 2 ^ 53 := by
  obtain ⟨m, hm⟩ := hp.exists_steps (j := 54) (by norm_num) (by norm_num; linarith)
  obtain ⟨s, hs⟩ := exists_steps_sum hp₀ hp₁
  obtain ⟨hhigh, hlow⟩ := abs_sub_le_iff.mp (abs_rounded_add_one_sub_le hp₀ hp₁)
  rw [hs] at hhigh hlow
  norm_num at hm hs hhigh hlow
  have hm₁ : m ≤ 2 ^ 54 := by
    have : (m : ℚ) ≤ 2 ^ 54 := by linarith
    exact_mod_cast this
  have hm₀ : 2 ^ 52 ≤ m := by
    have : (2 ^ 52 : ℚ) ≤ m := by linarith
    exact_mod_cast this
  have hlow' : m + 2 ^ 54 ≤ 4 * s + 2 := by
    have : (m + 2 ^ 54 : ℚ) ≤ 4 * s + 2 := by linarith
    exact_mod_cast this
  have hhigh' : 4 * s ≤ m + 2 ^ 54 + 2 := by
    have : (4 * s : ℚ) ≤ m + 2 ^ 54 + 2 := by linarith
    exact_mod_cast this
  have hsteps : rounded (p + 1) - 2 * p = (2 * s - m : ℕ) / 2 ^ 53 := by
    rw [Nat.cast_sub (by omega), hs, hm]
    norm_num
    ring
  refine ⟨2 * s - m, ?_, hsteps⟩
  exact (rounded_eq_of_steps (by norm_num) (by omega) hsteps (by rw [hs, hm]; linarith)).trans hsteps

/-- **Numerator and denominator are whole steps, and the denominator is above by one at most.** -/
theorem exists_steps : ∃ n d : ℕ, numerator p = n / 2 ^ 53 ∧ rounded (1 - p) = d / 2 ^ 53 ∧
    d ≤ n + 1 := by
  obtain ⟨d, hd⟩ := exists_steps_gap hp hp₁
  have hsum := (abs_sub_le_iff.mp (abs_rounded_add_one_sub_le hp₀ hp₁)).2
  rcases le_total p (1 / 4) with h | h
  · obtain ⟨s, hs⟩ := exists_steps_sum hp₀ hp₁
    norm_num at hsum
    obtain ⟨n, hn⟩ := exists_steps_of_half_le (Binary64.isValue_rounded _)
      (isValue_half.le_rounded (q := rounded (p + 1) - 2 * p) (by linarith))
    exact ⟨n, d, hn, hd, steps_le_of_le_quarter hp₀ h hn hd hs⟩
  · obtain ⟨n, hn, hexact⟩ := exists_steps_numerator hp hp₀ hp₁ h
    have hgap := (abs_sub_le_iff.mp (abs_rounded_one_sub_le hp₀ hp₁)).1
    refine ⟨n, d, hn, hd, ?_⟩
    by_contra hlt
    have hfar : (n + 2 : ℚ) ≤ d := by exact_mod_cast Nat.succ_le_of_lt (not_le.mp hlt)
    rw [hd] at hgap
    norm_num at hsum hgap hexact
    linarith

/-- Next to one the quotient is as far off as the step is large beside `1 - p`. -/
theorem hamacher0_or_one_scaled :
    (1 - p) * |Hamacher0.formula .disjunction p 1 - 1| ≤ 1 / 2 ^ 52 := by
  obtain ⟨n, d, hn, hd, hle⟩ := exists_steps hp hp₀ hp₁
  have hgap := (abs_sub_le_iff.mp (abs_rounded_one_sub_le hp₀ hp₁)).2
  rw [disjunction_one_eq_quotient hp hp₀ hp₁]
  split_ifs with h0
  · rw [sub_self, abs_zero, mul_zero]
    norm_num
  · have hpos : 0 < d := Nat.pos_of_ne_zero fun h => h0 (by rw [hd, h, Nat.cast_zero, zero_div])
    have hd₁ : (1 : ℚ) ≤ d := by exact_mod_cast hpos
    have hone : (1 - p) * (1 / d) ≤ 1 / 2 ^ 53 + 1 / 2 ^ 54 := by
      rw [mul_one_div, div_le_iff₀ (by linarith)]
      rw [hd] at hgap
      norm_num at hgap ⊢
      linarith
    have hquot := one_sub_le_quotient hn hd hle hpos
    calc (1 - p) * |unit (rounded (numerator p / rounded (1 - p))) - 1|
        ≤ (1 - p) * (1 / d + 1 / 2 ^ 54) :=
          mul_le_mul_of_nonneg_left (abs_unit_sub_one_le (by positivity) hquot) (by linarith)
      _ ≤ 1 / 2 ^ 52 := by
        rw [mul_add]
        norm_num at hone ⊢
        linarith

/-- Up to three fifths the quotient is near one. -/
theorem hamacher0_or_one_of_le (h : p ≤ 3 / 5) :
    |Hamacher0.formula .disjunction p 1 - 1| ≤ 1 / 2 ^ 52 := by
  obtain ⟨n, d, hn, hd, hle⟩ := exists_steps hp hp₀ hp₁
  have hgap : 2 / 5 ≤ rounded (1 - p) :=
    le_rounded_two_fifths.trans (Binary64.rounded_mono (by linarith))
  rw [disjunction_one_eq_quotient hp hp₀ hp₁, if_neg (by linarith)]
  refine abs_unit_sub_one_le (by norm_num) ?_
  rw [← rounded_two_steps_below]
  refine Binary64.rounded_mono ?_
  rw [le_div_iff₀ (by linarith), hn, hd]
  have hle' : (d : ℚ) ≤ n + 1 := by exact_mod_cast hle
  rw [hd] at hgap
  norm_num at hgap ⊢
  linarith

/-- Where the sum with one is not rounded down, the quotient is one. -/
theorem hamacher0_or_one_of_le_sum (h : p + 1 ≤ rounded (p + 1)) :
    |Hamacher0.formula .disjunction p 1 - 1| ≤ 1 / 2 ^ 52 := by
  have hle : rounded (1 - p) ≤ numerator p := Binary64.rounded_mono (by linarith)
  rw [disjunction_one_eq_quotient hp hp₀ hp₁]
  split_ifs with h0
  · exact abs_sub_self_le 1
  · have hpos : 0 < rounded (1 - p) :=
      lt_of_le_of_ne (Binary64.rounded_nonneg (by linarith)) (Ne.symm h0)
    rw [unit_of_one_le (Binary64.isValue_one.le_rounded ((one_le_div₀ hpos).mpr hle))]
    exact abs_sub_self_le 1

/-- Above three fifths it is not near one where the sum with one is rounded down. -/
theorem hamacher0_or_one_far (h : 3 / 5 < p) (hsum : rounded (p + 1) < p + 1) :
    ¬ |Hamacher0.formula .disjunction p 1 - 1| ≤ 1 / 2 ^ 52 := by
  obtain ⟨d, hd, hgap⟩ := exists_steps_gap_of_half_le hp hp₁ (by linarith)
  obtain ⟨n, hn, hexact⟩ := exists_steps_numerator hp hp₀ hp₁ (by linarith)
  have hlt : n < d := by
    have hsteps : (n / 2 ^ 53 : ℚ) < d / 2 ^ 53 := by
      rw [← hexact, ← hd, hgap]
      linarith
    exact_mod_cast (div_lt_div_iff_of_pos_right (by positivity)).mp hsteps
  have hpos : (0 : ℚ) < d := by exact_mod_cast Nat.zero_lt_of_lt hlt
  -- one step is more than two and a half for one, which rounding does not make two
  have hfar : (n / d : ℚ) < 1 - 5 / 2 ^ 54 := by
    have hsucc : (n + 1 : ℚ) ≤ d := by exact_mod_cast hlt
    rw [hd] at hgap
    rw [div_lt_iff₀ hpos]
    norm_num at hgap ⊢
    linarith
  have hnonneg : (0 : ℚ) ≤ n / d := by positivity
  have hround := (abs_sub_le_iff.mp (Binary64.abs_rounded_sub_le_of_le_one hnonneg
    (hfar.le.trans (by norm_num)))).1
  rw [disjunction_one_eq_quotient hp hp₀ hp₁, if_neg (by rw [hd]; positivity),
    div_of_steps hn hd, unit_of_mem (Binary64.rounded_nonneg hnonneg)
      (Binary64.rounded_le_one (hfar.le.trans (by norm_num))), not_le, lt_abs]
  refine .inr ?_
  norm_num at hfar hround ⊢
  linarith

theorem boundary_hamacher0 (hC : C ↔ p ≤ 3 / 5 ∨ p + 1 ≤ rounded (p + 1)) :
    Boundary Hamacher0.formula C p where
  or_zero := by
    rw [Hamacher0.formula, add_zero, mul_zero, mul_zero, Binary64.rounded_zero, sub_zero, sub_zero,
      Binary64.rounded_one, if_neg one_ne_zero, hp.rounded_eq, hp.rounded_eq, div_one,
      hp.rounded_eq, unit_of_mem hp₀ hp₁]
  and_zero := by
    rw [Hamacher0.formula, mul_zero, Binary64.rounded_zero, zero_div, Binary64.rounded_zero,
      unit_of_mem le_rfl zero_le_one, ite_self]
  and_one := by
    obtain ⟨h₁, h₂⟩ := rounded_add_one_sub_mem hp₀ hp₁
    rw [Hamacher0.formula, mul_one, hp.rounded_eq, if_neg (by linarith)]
    exact abs_unit_div_sub_le hp hp₀ hp₁ h₁ h₂
  or_one_scaled := hamacher0_or_one_scaled hp hp₀ hp₁
  or_one := by
    rw [hC]
    constructor
    · contrapose!
      exact fun h => not_le.mp (hamacher0_or_one_far hp hp₀ hp₁ h.1 h.2)
    · rintro (hle | hsum)
      · exact hamacher0_or_one_of_le hp hp₀ hp₁ hle
      · exact hamacher0_or_one_of_le_sum hp hp₀ hp₁ hsum

/-- Every set of the catalogue computes a formula with the boundary laws in both orders. -/
theorem exists_boundary_formula (ho : o ∈ all) : ∃ f, Computes o f ∧
    Boundary f (o = hamacher0 → p ≤ 3 / 5 ∨ p + 1 ≤ rounded (p + 1)) p ∧
    Boundary (exchanged f) (o = hamacher0 → p ≤ 3 / 5 ∨ p + 1 ≤ rounded (p + 1)) p := by
  have others : o.id ≠ hamacher0.id →
      o = hamacher0 → p ≤ 3 / 5 ∨ p + 1 ≤ rounded (p + 1) :=
    fun hne h => absurd (congrArg Opset.id h) hne
  rcases mem_all.mp ho with rfl | rfl | rfl | rfl | rfl
  · have h := boundary_yager1 hp hp₀ hp₁ (others (by decide))
    exact ⟨_, computes_yager1, h.both symmetric_yager1⟩
  · have h := boundary_yagerInf hp₀ hp₁ (others (by decide))
    exact ⟨_, computes_yagerInf, h.both symmetric_yagerInf⟩
  · exact ⟨_, computes_hamacher0,
      (boundary_hamacher0 hp hp₀ hp₁ (forall_prop_of_true rfl)).both symmetric_hamacher0⟩
  · have h := boundary_hamacher1 hp hp₀ hp₁ (others (by decide))
    exact ⟨_, computes_hamacher1, h.both symmetric_hamacher1⟩
  · exact ⟨_, computes_hamacher2, boundary_hamacher2 hp hp₀ hp₁ (others (by decide))⟩

end Steps

/-! ## The catalogue as a whole -/

/-- The outcome is a degree near some value. -/
def GivesNear (r : Except Fault Number) (q : ℚ) : Prop :=
  ∃ d : Binary64, r = .ok (.float d) ∧ d.isDegree = true ∧ |d.value - q| ≤ 1 / 2 ^ 52

theorem Gives.near_iff {r : Except Fault Number} (h : Gives r p) :
    GivesNear r q ↔ |p - q| ≤ 1 / 2 ^ 52 := by
  obtain ⟨d, hr, hd, rfl⟩ := h
  refine ⟨?_, fun hp => ⟨d, hr, hd, hp⟩⟩
  rintro ⟨e, he, -, hnear⟩
  obtain rfl : d = e := Number.float.inj (Except.ok.inj (hr.symm.trans he))
  exact hnear

/-- **Zero and one as operands.**  For every set of the catalogue, every double `x` in `[0, 1]` and
either order of the operands, joining with a zero of either sign gives `x` and zero exactly, and
joining with one gives `x` and one up to `2⁻⁵²`.  For the disjunction with parameter `0` the last is
so exactly where `x` is at most three fifths or the sum `x + 1` is not rounded down; everywhere what it
is off by, times `1 - x`, is at most `2⁻⁵²`. -/
theorem boundary_laws (ho : o ∈ all) (hx : x.isDegree = true) :
    (∀ z : Binary64, z.isDegree = true → z.value = 0 →
      Gives (o.rawOr (.float x) (.float z)) x.value ∧
      Gives (o.rawOr (.float z) (.float x)) x.value ∧
      Gives (o.rawAnd (.float x) (.float z)) 0 ∧ Gives (o.rawAnd (.float z) (.float x)) 0) ∧
    GivesNear (o.rawAnd (.float x) (.float .one)) x.value ∧
    GivesNear (o.rawAnd (.float .one) (.float x)) x.value ∧
    (GivesNear (o.rawOr (.float x) (.float .one)) 1 ↔
      (o = hamacher0 → x.value ≤ 3 / 5 ∨ x.value + 1 ≤ (x + .one).value)) ∧
    (GivesNear (o.rawOr (.float .one) (.float x)) 1 ↔
      (o = hamacher0 → x.value ≤ 3 / 5 ∨ x.value + 1 ≤ (x + .one).value)) ∧
    ∃ d e : Binary64, o.rawOr (.float x) (.float .one) = .ok (.float d) ∧
      o.rawOr (.float .one) (.float x) = .ok (.float e) ∧
      (1 - x.value) * |d.value - 1| ≤ 1 / 2 ^ 52 ∧ (1 - x.value) * |e.value - 1| ≤ 1 / 2 ^ 52 := by
  obtain ⟨hnan, hx₀, hx₁⟩ := Binary64.isDegree_iff.mp hx
  have hone : Binary64.one.isDegree = true := by decide +kernel
  obtain ⟨f, hf, hright, hleft⟩ := exists_boundary_formula (Binary64.isValue_value hnan) hx₀ hx₁ ho
  have hor := hf .disjunction hx hone
  have hor' := hf .disjunction hone hx
  have hand := hf .conjunction hx hone
  have hand' := hf .conjunction hone hx
  rw [Binary64.value_one] at hor hor' hand hand'
  rw [Binary64.value_add (Binary64.isFinite_of_isDegree hx) Binary64.isFinite_one,
    Binary64.value_one]
  refine ⟨fun z hz hz₀ => ?_, hand.near_iff.mpr hright.and_one, hand'.near_iff.mpr hleft.and_one,
    hor.near_iff.trans hright.or_one, hor'.near_iff.trans hleft.or_one, ?_⟩
  · have or_zero := hf .disjunction hx hz
    have zero_or := hf .disjunction hz hx
    have and_zero := hf .conjunction hx hz
    have zero_and := hf .conjunction hz hx
    rw [hz₀] at or_zero zero_or and_zero zero_and
    exact ⟨hright.or_zero ▸ or_zero, hleft.or_zero ▸ zero_or, hright.and_zero ▸ and_zero,
      hleft.and_zero ▸ zero_and⟩
  · obtain ⟨d, hd, -, hdvalue⟩ := hor
    obtain ⟨e, he, -, hevalue⟩ := hor'
    refine ⟨d, e, hd, he, ?_, ?_⟩
    · rw [hdvalue]
      exact hright.or_one_scaled
    · rw [hevalue]
      exact hleft.or_one_scaled

/-- The set with parameter zero at `0.1`, with both zeros and with one. -/
theorem hamacher0_boundary_laws :
    hamacher0 ∈ all ∧ tenth.isDegree = true ∧
    Gives (hamacher0.rawOr (.float tenth) (.float (.signed true 0))) tenth.value ∧
    Gives (hamacher0.rawAnd (.float .zero) (.float tenth)) 0 ∧
    GivesNear (hamacher0.rawAnd (.float .one) (.float tenth)) tenth.value ∧
    GivesNear (hamacher0.rawOr (.float tenth) (.float .one)) 1 := by
  have hmem : hamacher0 ∈ all := by simp [all]
  have htenth : tenth.isDegree = true := by decide +kernel
  obtain ⟨hzero, -, hand, hor, -⟩ := boundary_laws hmem htenth
  have hle : tenth.value ≤ 3 / 5 := by decide +kernel
  exact ⟨hmem, htenth, (hzero (.signed true 0) (by decide +kernel) (by decide +kernel)).1,
    (hzero .zero (by decide +kernel) (by decide +kernel)).2.2.2, hand, hor.mpr fun _ => .inl hle⟩

/-- **With parameter zero the disjunction with one fails next to one**: that of `1 - 3 · 2⁻⁵³` and `1`
is the double nearest to two thirds. -/
theorem hamacher0_disjunction_with_one_fails :
    hamacher0 ∈ all ∧ nearOne.isDegree = true ∧
    hamacher0.rawOr (.float nearOne) (.float .one) =
      .ok (.float (.signed false ⟨4604180019048437077, by decide⟩)) ∧
    ¬ GivesNear (hamacher0.rawOr (.float nearOne) (.float .one)) 1 := by
  have hor : hamacher0.rawOr (.float nearOne) (.float .one) =
      .ok (.float (.signed false ⟨4604180019048437077, by decide⟩)) := by decide +kernel
  refine ⟨by simp [all], by decide +kernel, hor, ?_⟩
  rintro ⟨d, hd, -, hnear⟩
  rw [hor] at hd
  obtain rfl := Number.float.inj (Except.ok.inj hd)
  have hfar : (Binary64.signed false ⟨4604180019048437077, by decide⟩).value ≤ 3 / 4 := by
    decide +kernel
  have hclose : (1 : ℚ) / 2 ^ 52 ≤ 1 / 8 := by norm_num
  linarith [(abs_sub_le_iff.mp hnear).2]

end Catalogue

end FuzzyLogic
