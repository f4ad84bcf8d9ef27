import FuzzyLogic.Binary64.Round
import Mathlib.Algebra.Order.Field.Rat
import Mathlib.Order.Monotone.Basic
import Mathlib.Tactic.FieldSimp
import Mathlib.Tactic.Linarith
import Mathlib.Tactic.Positivity
import Mathlib.Tactic.Ring

/-!
# Proofs/Binary64/Rank — ranks, their values, and the rank nearest to a quotient

A rank splits into a **shift** and a **mantissa** (`exists_mantissa`), and `units_mantissa` reads its
value off them; the next rank has the next mantissa, so values strictly increase (`units_strictMono`).

`Attracts r q` says that the rational `q`, counted in units, lies in the interval of rank `r`: from
halfway to the rank below up to halfway to the rank above, the ends included when `r` is even.  These
intervals cover the line without overlap, so

* `Attracts.le` — a larger rational is attracted by a larger rank, and by no other;
* `attracts_nearestRank` — rounding finds the rank that attracts a quotient.
-/

namespace FuzzyLogic

/-! ## Values of ranks -/

theorem binade_pos : 0 < binade := by decide

theorem unitsPerOne_pos : 0 < unitsPerOne := by decide +kernel

theorem unitsPerOne_eq_pow : unitsPerOne = 2 ^ 1074 := by decide +kernel

/-- The value of a rank is its mantissa, doubled by its shift.  The mantissa may run up to that of
the next binade. -/
theorem units_mantissa {shift n : ℕ} (hn : n ≤ 2 * binade) (h : binade ≤ n ∨ shift = 0) :
    units (shift * binade + n) = n * 2 ^ shift := by
  have hb := binade_pos
  rcases Nat.lt_or_ge n binade with hlt | hge
  · obtain rfl : shift = 0 := h.resolve_left (by omega)
    simp [units, hlt]
  rcases Nat.eq_or_lt_of_le hn with rfl | hlt
  · have hdiv : (shift * binade + 2 * binade) / binade = shift + 2 := by
      rw [← Nat.add_mul, Nat.mul_div_cancel _ hb]
    have hmod : (shift * binade + 2 * binade) % binade = 0 := by
      rw [← Nat.add_mul, Nat.mul_mod_left]
    rw [units, if_neg (by omega), hdiv, hmod, Nat.shiftLeft_eq, Nat.add_zero,
      show shift + 2 - 1 = shift + 1 by omega, pow_succ]
    ring
  · obtain ⟨k, rfl⟩ : ∃ k, n = binade + k := ⟨n - binade, by omega⟩
    have hk : k < binade := by omega
    have hdiv : (shift * binade + (binade + k)) / binade = shift + 1 := by
      rw [← Nat.add_assoc, ← Nat.succ_mul, Nat.add_comm, Nat.add_mul_div_right _ _ hb,
        Nat.div_eq_of_lt hk, Nat.zero_add]
    have hmod : (shift * binade + (binade + k)) % binade = k := by
      rw [← Nat.add_assoc, ← Nat.succ_mul, Nat.add_comm, Nat.add_mul_mod_self_right,
        Nat.mod_eq_of_lt hk]
    rw [units, if_neg (by omega), hdiv, hmod, Nat.shiftLeft_eq, Nat.add_sub_cancel]

/-- Every rank has a shift and a mantissa. -/
theorem exists_mantissa (r : ℕ) :
    ∃ shift n, r = shift * binade + n ∧ n < 2 * binade ∧ (binade ≤ n ∨ shift = 0) := by
  have hb := binade_pos
  have hr := Nat.div_add_mod r binade
  have hmod := Nat.mod_lt r hb
  rcases Nat.eq_zero_or_pos (r / binade) with h0 | hpos
  · exact ⟨0, r, by omega, by rw [h0] at hr; omega, .inr rfl⟩
  · obtain ⟨k, hk⟩ : ∃ k, r / binade = k + 1 := ⟨r / binade - 1, by omega⟩
    refine ⟨k, binade + r % binade, ?_, by omega, .inl (by omega)⟩
    rw [hk, Nat.mul_comm, Nat.succ_mul] at hr
    omega

/-- **Values strictly increase with the rank.** -/
theorem units_strictMono : StrictMono units := by
  refine strictMono_nat_of_lt_succ fun r => ?_
  obtain ⟨shift, n, rfl, hn, h⟩ := exists_mantissa r
  rw [units_mantissa hn.le h, Nat.add_assoc, units_mantissa (by omega) (h.imp (by omega) id)]
  exact Nat.mul_lt_mul_of_pos_right (Nat.lt_succ_self n) (by positivity)

/-! ## Intervals of attraction -/

/-- The rational `q`, counted in units, lies between halfway to the rank below and halfway to the
rank above; strictly so when the rank is odd. -/
structure Attracts (r : ℕ) (q : ℚ) : Prop where
  lower : (units (r - 1) + units r : ℚ) ≤ 2 * q
  upper : 2 * q ≤ units r + units (r + 1)
  inside : r % 2 = 1 → (units (r - 1) + units r : ℚ) < 2 * q ∧ 2 * q < units r + units (r + 1)

theorem units_cast_le {r s : ℕ} (h : r ≤ s) : (units r : ℚ) ≤ units s := by
  exact_mod_cast units_strictMono.monotone h

theorem units_cast_lt {r s : ℕ} (h : r < s) : (units r : ℚ) < units s := by
  exact_mod_cast units_strictMono h

/-- **Rounding is monotone.**  With equal rationals this says that no two ranks attract one
rational. -/
theorem Attracts.le {r s : ℕ} {p q : ℚ} (hr : Attracts r p) (hs : Attracts s q) (hpq : p ≤ q) :
    r ≤ s := by
  by_contra hlt
  -- the interval of `s` ends where that of `r` begins, or below
  have h₁ := units_cast_le (show s ≤ r - 1 by omega)
  have h₂ := units_cast_le (show s + 1 ≤ r by omega)
  have h₃ := hr.lower
  have h₄ := hs.upper
  have hsr : (units s : ℚ) = units (r - 1) := by linarith
  have hadj : s = r - 1 := units_strictMono.injective (by exact_mod_cast hsr)
  -- of two neighbours one is odd, and its interval leaves out the common end
  rcases Nat.mod_two_eq_zero_or_one r with heven | hodd
  · have := (hs.inside (by omega)).2
    linarith
  · have := (hr.inside hodd).1
    linarith

theorem Attracts.unique {r s : ℕ} {q : ℚ} (hr : Attracts r q) (hs : Attracts s q) : r = s :=
  Nat.le_antisymm (hr.le hs le_rfl) (hs.le hr le_rfl)

theorem attracts_below {r : ℕ} {q : ℚ} (hl : (units r : ℚ) ≤ q)
    (hu : 2 * q ≤ units r + units (r + 1))
    (hs : r % 2 = 1 → 2 * q < units r + units (r + 1)) : Attracts r q := by
  have hlow := units_cast_le (Nat.sub_le r 1)
  refine ⟨by linarith, hu, fun hodd => ⟨?_, hs hodd⟩⟩
  have := units_cast_lt (show r - 1 < r by omega)
  linarith

theorem attracts_above {r : ℕ} {q : ℚ} (hu : q ≤ units (r + 1))
    (hl : (units r + units (r + 1) : ℚ) ≤ 2 * q)
    (hs : (r + 1) % 2 = 1 → (units r + units (r + 1) : ℚ) < 2 * q) : Attracts (r + 1) q := by
  have hup := units_cast_lt (Nat.lt_succ_self (r + 1))
  refine ⟨?_, by linarith, fun hodd => ⟨?_, by linarith⟩⟩
  · simpa using hl
  · simpa using hs hodd

/-! ## Rounding a quotient -/

/-- The coarse steps of a whole number of units are few enough for one binade and, unless the step
is the finest, at least a binade. -/
theorem mantissa_bounds (w : ℕ) :
    w / 2 ^ Magnitude.doublings w < 2 * binade ∧
      (binade ≤ w / 2 ^ Magnitude.doublings w ∨ Magnitude.doublings w = 0) := by
  have hb : binade = 2 ^ 52 := rfl
  have hpos : 0 < 2 ^ Magnitude.doublings w := by positivity
  constructor
  · rw [Nat.div_lt_iff_lt_mul hpos, hb, ← pow_succ', ← pow_add]
    exact Nat.lt_of_lt_of_le Nat.lt_log2_self
      (Nat.pow_le_pow_right (by decide) (by simp only [Magnitude.doublings]; omega))
  · rcases Nat.eq_zero_or_pos (Magnitude.doublings w) with h0 | hd
    · exact .inr h0
    · refine .inl ?_
      have hw : w ≠ 0 := by rintro rfl; simp [Magnitude.doublings] at hd
      rw [Nat.le_div_iff_mul_le hpos, hb, ← pow_add,
        show 52 + Magnitude.doublings w = w.log2 by
          simp only [Magnitude.doublings] at hd ⊢; omega]
      exact Nat.log2_self_le hw

/-- A quotient is a whole number of coarse steps and a remainder. -/
theorem quotient_eq_steps_add (num : ℕ) {den : ℕ} (hden : 0 < den) (k : ℕ) :
    (num / den : ℚ) = (num / (den * k) : ℕ) * k + (num % (den * k) : ℕ) / den := by
  have hnum : (num : ℚ) = (den * k : ℕ) * (num / (den * k) : ℕ) + (num % (den * k) : ℕ) := by
    exact_mod_cast (Nat.div_add_mod num (den * k)).symm
  have hden' : (den : ℚ) ≠ 0 := by exact_mod_cast hden.ne'
  conv_lhs => rw [hnum]
  push_cast
  field_simp

/-- **Rounding finds the rank that attracts a quotient.** -/
theorem attracts_nearestRank (num : ℕ) {den : ℕ} (hden : 0 < den) :
    Attracts (Magnitude.nearestRank num den) (num / den) := by
  set shift := Magnitude.doublings (num / den) with hshift
  set step := den * 2 ^ shift with hstep
  set below := shift * binade + num / step with hbelow
  have hdenQ : (0 : ℚ) < den := by exact_mod_cast hden
  have hstep_pos : 0 < step := by positivity
  obtain ⟨hlt, hge⟩ := mantissa_bounds (num / den)
  rw [Nat.div_div_eq_div_mul, ← hshift, ← hstep] at hlt hge
  have hu : (units below : ℚ) = (num / step : ℕ) * (2 ^ shift : ℕ) := by
    rw [hbelow, units_mantissa hlt.le hge, Nat.cast_mul]
  have hv : (units (below + 1) : ℚ) = units below + (2 ^ shift : ℕ) := by
    rw [hu, hbelow, Nat.add_assoc, units_mantissa (by omega) (hge.imp (by omega) id)]
    push_cast
    ring
  -- the quotient lies above `below` by a remainder, and by less than a step
  have hq := quotient_eq_steps_add num hden (2 ^ shift)
  rw [← hstep, ← hu] at hq
  have hwhole : ((2 ^ shift : ℕ) : ℚ) = (step : ℕ) / den := by
    rw [hstep, Nat.cast_mul, mul_div_cancel_left₀ _ hdenQ.ne']
  have hrem : ((num % step : ℕ) / den : ℚ) < (2 ^ shift : ℕ) := by
    rw [hwhole]
    exact div_lt_div_of_pos_right (by exact_mod_cast Nat.mod_lt num hstep_pos) hdenQ
  have hrem0 : (0 : ℚ) ≤ (num % step : ℕ) / den := by positivity
  have htwice : 2 * ((num % step : ℕ) / den : ℚ) = (2 * (num % step) : ℕ) / den := by
    push_cast; ring
  simp only [Magnitude.nearestRank, ← hshift, Nat.shiftLeft_eq, ← hstep, ← hbelow]
  rcases lt_trichotomy (2 * (num % step)) step with h | h | h
  · rw [if_pos h]
    have hcmp : 2 * ((num % step : ℕ) / den : ℚ) < (2 ^ shift : ℕ) := by
      rw [hwhole, htwice]
      exact div_lt_div_of_pos_right (by exact_mod_cast h) hdenQ
    exact attracts_below (by linarith) (by linarith) fun _ => by linarith
  · rw [if_neg h.not_lt, if_neg h.symm.not_lt]
    have hcmp : 2 * ((num % step : ℕ) / den : ℚ) = (2 ^ shift : ℕ) := by
      rw [hwhole, htwice, h]
    -- a tie goes to the even of the two ranks
    rcases Nat.mod_two_eq_zero_or_one below with heven | hodd
    · rw [heven, Nat.add_zero]
      exact attracts_below (by linarith) (by linarith) fun _ => by omega
    · rw [hodd]
      exact attracts_above (by linarith) (by linarith) fun _ => by omega
  · rw [if_neg h.asymm, if_pos h]
    have hcmp : ((2 ^ shift : ℕ) : ℚ) < 2 * ((num % step : ℕ) / den : ℚ) := by
      rw [hwhole, htwice]
      exact div_lt_div_of_pos_right (by exact_mod_cast h) hdenQ
    exact attracts_above (by linarith) (by linarith) fun _ => by linarith

end FuzzyLogic
