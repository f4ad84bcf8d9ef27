import FuzzyLogic.Proofs.Binary64.Rounding
import FuzzyLogic.Proofs.Decimal.Value
import FuzzyLogic.Proofs.Number.Comparison

/-!
# Proofs/Number/Conversion — exact numbers as doubles

An exact number becomes a double by rounding, and rounding takes it across the bounds that matter:
onto infinity, where the conversion fails, and into `[0, 1]`.  At all three bounds lies a magnitude
of even rank, to which ties go (`IsNearest.le_iff_of_even`, `IsNearest.ge_iff_of_even`).  So

* from halfway between the largest double and `2¹⁰²⁴` on, and only there, an exact number does not
  become a double (`toBinary64_exact`);
* between `-2⁻¹⁰⁷⁵` and `1 + 2⁻⁵³`, and only there, it becomes a degree (`IsNearest.isDegree_iff`).

`Point.closest` is the point of `[0, 1]` closest to a number.  Clamping commutes with rounding
(`IsNearest.clamped`), so that the clamped double is nearest to it (`isNearest_closest`).
-/

namespace FuzzyLogic

namespace Magnitude

variable {m k n : Magnitude} {q : ℚ}

/-! ## Ties go to even ranks -/

/-- Halfway between two neighbours the one of even rank is nearest. -/
theorem isNearest_halfway (hn : n.val = k.val + 1) (hm : m = k ∨ m = n) (heven : m.val % 2 = 0) :
    m.IsNearest ((k.value + n.value) / 2) := by
  have hkn : k ≤ n := Fin.le_def.mpr (by omega)
  have hle := value_le_value.mpr hkn
  refine isNearest_of_half (fun j hj => ⟨?_, by omega⟩) fun j hj => ⟨?_, by omega⟩
  · rcases hm with rfl | rfl
    · linarith [value_le_value.mpr hj.le]
    · have hjk : j ≤ k := Fin.le_def.mpr (by have := Fin.lt_def.mp hj; omega)
      linarith [value_le_value.mpr hjk]
  · rcases hm with rfl | rfl
    · have hnj : n ≤ j := Fin.le_def.mpr (by have := Fin.lt_def.mp hj; omega)
      linarith [value_le_value.mpr hnj]
    · linarith [value_le_value.mpr hj.le]

/-- Rounding stays at or below an even rank exactly up to halfway to the rank above. -/
theorem IsNearest.le_iff_of_even (h : m.IsNearest q) (hn : n.val = k.val + 1)
    (heven : k.val % 2 = 0) : m ≤ k ↔ 2 * q ≤ k.value + n.value := by
  have hkn : k < n := Fin.lt_def.mpr (by omega)
  constructor
  · intro hmk
    have hhalf := le_half_of_abs_sub_le (value_lt_value.mpr (hmk.trans_lt hkn)) (h.abs_le n)
    exact hhalf.trans (add_le_add_left (value_le_value.mpr hmk) _)
  · exact fun hhalf => h.mono (isNearest_halfway hn (.inl rfl) heven) (by linarith)

/-- Rounding stays at or above an even rank exactly from halfway to the rank below on. -/
theorem IsNearest.ge_iff_of_even (h : m.IsNearest q) (hn : n.val = k.val + 1)
    (heven : n.val % 2 = 0) : n ≤ m ↔ k.value + n.value ≤ 2 * q := by
  have hkn : k < n := Fin.lt_def.mpr (by omega)
  constructor
  · intro hnm
    have hhalf := half_le_of_abs_sub_le (value_lt_value.mpr (hkn.trans_le hnm)) (h.abs_le k)
    exact (add_le_add_right (value_le_value.mpr hnm) _).trans hhalf
  · exact fun hhalf => (isNearest_halfway hn (.inr rfl) heven).mono h (by linarith)

/-! ## The bounds -/

/-- The least positive magnitude. -/
def least : Magnitude := ⟨zero.val + 1, by decide⟩

/-- The magnitude next to one. -/
def aboveOne : Magnitude := ⟨one.val + 1, by decide⟩

/-- The largest finite magnitude. -/
def largest : Magnitude := ⟨top.val - 1, by decide⟩

/-- Halfway between zero and the least positive magnitude. -/
def underflow : ℚ := 1 / 2 ^ 1075

/-- Halfway between the largest finite magnitude and what infinity counts as. -/
def overflow : ℚ := 2 ^ 1024 - 2 ^ 970

theorem value_least : least.value = 1 / 2 ^ 1074 := by
  have hunits : least.units = 1 := rfl
  rw [value, hunits, unitsPerOne_eq_pow, Nat.cast_one, Nat.cast_pow, Nat.cast_ofNat]

theorem value_aboveOne : aboveOne.value = 1 + 1 / 2 ^ 52 := by
  have hunits : aboveOne.units = unitsPerOne + 2 ^ 1022 := by decide +kernel
  have hstep : (1 * 2 ^ 1022 / unitsPerOne : ℚ) = 1 / 2 ^ 52 := mul_pow_div_unitsPerOne rfl 1
  rw [value, hunits, Nat.cast_add, add_div, div_self unitsPerOne_cast_pos.ne', Nat.cast_pow,
    Nat.cast_ofNat, ← hstep, one_mul]

theorem value_largest : largest.value = (2 ^ 1024 : ℕ) - (2 ^ 971 : ℕ) := by
  have hunits : largest.units = (2 ^ 1024 - 2 ^ 971) * unitsPerOne := by decide +kernel
  have hle : 2 ^ 971 ≤ 2 ^ 1024 := by decide +kernel
  exact (value_of_units hunits).trans (Nat.cast_sub hle)

/-- Zero is what rounding makes of all up to halfway to the least positive double. -/
theorem IsNearest.eq_zero_iff (h : m.IsNearest q) : m = zero ↔ q ≤ underflow := by
  have hzero : m ≤ zero ↔ m = zero := Fin.le_zero_iff
  have hhalf : underflow = 1 / 2 ^ 1074 / 2 := by rw [underflow, pow_succ, div_div]
  rw [← hzero, h.le_iff_of_even (n := least) rfl rfl, value_zero, value_least, zero_add, hhalf]
  exact (le_div_iff₀' two_pos).symm

/-- Rounding stays at or below one up to halfway to the double next to it. -/
theorem IsNearest.le_one_iff (h : m.IsNearest q) : m ≤ one ↔ q ≤ 1 + 1 / 2 ^ 53 := by
  rw [h.le_iff_of_even (n := aboveOne) rfl (by decide), value_one, value_aboveOne]
  constructor <;> intro hq <;> linarith

/-- Infinity is what rounding makes of all from halfway between the largest double and `2¹⁰²⁴`
on. -/
theorem IsNearest.eq_top_iff (h : m.IsNearest q) : m = top ↔ overflow ≤ q := by
  have htop : top ≤ m ↔ m = top := (Fin.le_last m).ge_iff_eq
  have hhalf : overflow = (largest.value + top.value) / 2 := by
    rw [overflow, value_largest, value_top, Nat.cast_pow, Nat.cast_pow, Nat.cast_ofNat,
      pow_succ (2 : ℚ) 970]
    generalize (2 : ℚ) ^ 1024 = a
    generalize (2 : ℚ) ^ 970 = b
    ring
  rw [← htop, h.ge_iff_of_even (k := largest) rfl (by decide), hhalf]
  exact (div_le_iff₀' two_pos).symm

theorem underflow_pos : 0 < underflow := by
  rw [underflow]
  positivity

end Magnitude

namespace Binary64

variable {x : Binary64} {q : ℚ}

/-- **What is rounded to a degree**: what lies in `[0, 1]`, or off it by no more than rounding
goes. -/
theorem IsNearest.isDegree_iff (h : x.IsNearest q) :
    x.isDegree = true ↔ -Magnitude.underflow ≤ q ∧ q ≤ 1 + 1 / 2 ^ 53 := by
  have hsmall := Magnitude.underflow_pos
  rcases x with _ | ⟨s, m⟩
  · exact h.elim
  have hm := m.value_nonneg
  rw [Binary64.isDegree_iff]
  rcases le_total 0 q with hq | hq
  · have hone := h.1.le_one_iff
    rw [← Magnitude.value_le_value, Magnitude.value_one, abs_of_nonneg hq] at hone
    rw [h.value_of_nonneg hq, hone]
    exact ⟨fun hle => ⟨by linarith, hle.2.2⟩, fun hle => ⟨nofun, hm, hle.2⟩⟩
  · have hzero := h.1.eq_zero_iff
    rw [← Magnitude.value_eq_zero, abs_of_nonpos hq] at hzero
    rw [h.value_of_nonpos hq]
    constructor
    · rintro ⟨-, hlow, -⟩
      exact ⟨by linarith [hzero.mp (by linarith)], by linarith⟩
    · rintro ⟨hlow, -⟩
      have hvalue := hzero.mpr (by linarith)
      exact ⟨nofun, by linarith, by linarith⟩

/-! ## Clamping -/

theorem clamped_of_isDegree (h : x.isDegree = true) : Membership.clamped x = x := by
  obtain ⟨hx, h₀, h₁⟩ := Binary64.isDegree_iff.mp h
  have hmax : x.max zero = x :=
    if_neg fun hlt => ((lt_iff_value hx (by decide)).mp hlt).not_ge (value_zero ▸ h₀)
  have hmin : x.min one = x :=
    if_neg fun hlt => ((lt_iff_value (by decide) hx).mp hlt).not_ge (value_one ▸ h₁)
  rw [Membership.clamped, hmax, hmin]

/-- **Clamping the nearest double gives the double nearest to the clamped number.** -/
theorem IsNearest.clamped (h : x.IsNearest q) :
    (Membership.clamped x).IsNearest (Min.min (Max.max q 0) 1) := by
  have hx := h.ne_nan
  have hvalue := value_clamped hx
  have hself := isNearest_value (clamped_ne_nan hx)
  rcases le_total q 0 with hq | hq
  · have hle : x.value ≤ 0 := by simpa using h.value_le (y := zero) (by decide) (by simpa using hq)
    rw [max_eq_right hle, min_eq_left zero_le_one] at hvalue
    rwa [hvalue, ← min_eq_left (zero_le_one : (0 : ℚ) ≤ 1), ← max_eq_right hq] at hself
  rcases le_total q 1 with hq' | hq'
  · rwa [max_eq_left hq, min_eq_left hq', clamped_of_isDegree (h.isDegree hq hq')]
  · have hge := h.one_le hq'
    rw [max_eq_left (zero_le_one.trans hge), min_eq_right hge] at hvalue
    rwa [hvalue, ← min_eq_right hq', ← max_eq_left hq] at hself

end Binary64

namespace Number

variable {raw raw' : Number} {x : Binary64} {q : ℚ} {p p' : Point}

/-! ## Exact numbers as doubles -/

/-- The fault of an exact number that does not become a double. -/
def tooLarge : Number → Fault
  | .int _ => .integerTooLarge
  | _ => .quotientTooLarge

/-- An exact number that is rounded to infinity. -/
def Beyond (raw : Number) : Prop := ∃ q, raw.asRatio? = some q ∧ Magnitude.overflow ≤ |q|

theorem quotient_eq_infinite_iff :
    quotient q.num q.den = .infinite (q.num < 0) ↔ Magnitude.overflow ≤ |q| := by
  rw [← (Binary64.isNearest_quotient q).1.eq_top_iff]
  simp [quotient, Binary64.infinite]

theorem asRatio?_eq_none (h : raw.asRatio? = none) : ∃ x, raw = .float x := by
  cases raw with
  | float x => exact ⟨x, rfl⟩
  | int n => cases h
  | ratio r => cases h

theorem asRatio?_eq_some (h : raw.asRatio? = some q) :
    (∃ n : ℤ, raw = .int n ∧ q = n) ∨ raw = .ratio q := by
  cases raw with
  | float x => cases h
  | int n => exact .inl ⟨n, rfl, (Option.some.inj h).symm⟩
  | ratio r => exact .inr (congrArg ratio (Option.some.inj h))

/-- **An exact number becomes the nearest double, unless that is infinite.** -/
theorem toBinary64_exact (h : raw.asRatio? = some q) :
    raw.toBinary64 = if Magnitude.overflow ≤ |q| then .error raw.tooLarge
      else .ok (quotient q.num q.den) := by
  rw [← if_congr quotient_eq_infinite_iff rfl rfl]
  rcases asRatio?_eq_some h with ⟨n, rfl, rfl⟩ | rfl
  · rfl
  · rfl

theorem Beyond.toBinary64_eq (h : raw.Beyond) : raw.toBinary64 = .error raw.tooLarge := by
  obtain ⟨q, hq, hle⟩ := h
  rw [toBinary64_exact hq, if_pos hle]

theorem exists_toBinary64 (h : ¬ raw.Beyond) : ∃ x, raw.toBinary64 = .ok x := by
  cases hq : raw.asRatio? with
  | none =>
    obtain ⟨x, rfl⟩ := asRatio?_eq_none hq
    exact ⟨x, rfl⟩
  | some q => exact ⟨_, by rw [toBinary64_exact hq, if_neg fun hle => h ⟨q, hq, hle⟩]⟩

theorem isNearest_of_exact (h : raw.asRatio? = some q) (hx : raw.toBinary64 = .ok x) :
    x.IsNearest q := by
  rw [toBinary64_exact h] at hx
  split at hx
  case isTrue => cases hx
  case isFalse =>
    obtain rfl := Except.ok.inj hx
    exact Binary64.isNearest_quotient q

/-! ## Points -/

theorem point?_exact (h : raw.asRatio? = some q) : raw.point? = some (.finite q.num q.den) := by
  rcases asRatio?_eq_some h with ⟨n, rfl, rfl⟩ | rfl
  · rfl
  · rfl

theorem point?_eq_none_iff : raw.point? = none ↔ raw = .float .nan := by
  cases raw with
  | float x =>
    rcases x with _ | ⟨s, m⟩
    · exact iff_of_true rfl rfl
    · refine iff_of_false ?_ (by simp)
      rw [point?]
      split <;> simp
  | int n => exact iff_of_false (by simp [point?]) (by simp)
  | ratio r => exact iff_of_false (by simp [point?]) (by simp)

theorem den_pos_of_point? {a : ℤ} {b : ℕ} (h : raw.point? = some (.finite a b)) : 0 < b := by
  cases raw with
  | float x =>
    rcases x with _ | ⟨s, m⟩
    · cases h
    · rw [point?] at h
      split at h
      case isTrue => split at h <;> cases h
      case isFalse =>
        injection h with h
        injection h with _ hb
        exact hb ▸ unitsPerOne_pos
  | int n =>
    injection h with h
    injection h with _ hb
    exact hb ▸ Nat.one_pos
  | ratio r =>
    injection h with h
    injection h with _ hb
    exact hb ▸ r.den_pos

/-- Finite points compare as quotients. -/
theorem Point.compare_finite {a c : ℤ} {b d : ℕ} (hb : 0 < b) (hd : 0 < d) :
    (finite a b).compare (finite c d) = Ord.compare (a / b : ℚ) (c / d : ℚ) := by
  have hcast : ∀ {a c : ℤ} {b d : ℕ}, 0 < b → 0 < d →
      (a * (d : ℤ) < c * (b : ℤ) ↔ (a / b : ℚ) < c / d) := by
    intro a c b d hb hd
    rw [div_lt_div_iff₀ (Nat.cast_pos.mpr hb) (Nat.cast_pos.mpr hd)]
    exact_mod_cast Iff.rfl
  exact compare_eq_of_lt_iff (hcast hb hd) (hcast hd hb)

theorem le_iff_of_finite {a c : ℤ} {b d : ℕ} (h : raw.point? = some (.finite a b))
    (h' : raw'.point? = some (.finite c d)) : raw.le raw' = true ↔ (a / b : ℚ) ≤ c / d := by
  simp only [le, related, h, h', Point.compare_finite (den_pos_of_point? h) (den_pos_of_point? h'),
    bne_iff_ne, ne_eq, compare_gt_iff_gt, not_lt]

/-- The point of `[0, 1]` closest to a point (`Point.abs_closest_sub_le`). -/
def Point.closest : Point → ℚ
  | .below => 0
  | .finite a b => Min.min (Max.max (a / b) 0) 1
  | .above => 1

theorem Point.closest_mem (p : Point) : 0 ≤ p.closest ∧ p.closest ≤ 1 := by
  cases p with
  | below => exact ⟨le_rfl, zero_le_one⟩
  | finite a b => exact ⟨le_min (le_max_right _ _) zero_le_one, min_le_right _ _⟩
  | above => exact ⟨zero_le_one, le_rfl⟩

/-- No point of `[0, 1]` is closer. -/
theorem Point.abs_closest_sub_le {a : ℤ} {b : ℕ} {t : ℚ} (h₀ : 0 ≤ t) (h₁ : t ≤ 1) :
    |(finite a b).closest - a / b| ≤ |t - a / b| := by
  rw [closest]
  generalize (a / b : ℚ) = q
  rcases le_total q 0 with hq | hq
  · rw [max_eq_right hq, min_eq_left zero_le_one, abs_of_nonneg (by linarith),
      abs_of_nonneg (by linarith)]
    linarith
  rcases le_total q 1 with hq' | hq'
  · rw [max_eq_left hq, min_eq_left hq', sub_self, abs_zero]
    exact abs_nonneg _
  · rw [max_eq_left hq, min_eq_right hq', abs_of_nonpos (by linarith), abs_of_nonpos (by linarith)]
    linarith

/-- **The closest point grows with the number.** -/
theorem closest_mono (hp : raw.point? = some p) (hp' : raw'.point? = some p')
    (h : raw.le raw' = true) : p.closest ≤ p'.closest := by
  have hne : p.compare p' ≠ .gt := by simpa [le, related, hp, hp'] using h
  cases p with
  | below => exact p'.closest_mem.1
  | above =>
    cases p' with
    | above => exact le_rfl
    | below | finite => exact absurd rfl hne
  | finite a b =>
    cases p' with
    | above => exact (Point.closest_mem _).2
    | below => exact absurd rfl hne
    | finite c d => exact min_le_min_right 1 (max_le_max_right 0 ((le_iff_of_finite hp hp').mp h))

/-- **The clamped double of a number is nearest to the point of `[0, 1]` closest to it.** -/
theorem isNearest_closest (hp : raw.point? = some p) (hx : raw.toBinary64 = .ok x) :
    (Membership.clamped x).IsNearest p.closest := by
  cases hq : raw.asRatio? with
  | some q =>
    obtain rfl := Option.some.inj (hp.symm.trans (point?_exact hq))
    rw [Point.closest, Rat.num_div_den]
    exact (isNearest_of_exact hq hx).clamped
  | none =>
    obtain ⟨y, rfl⟩ := asRatio?_eq_none hq
    obtain rfl : y = x := Except.ok.inj hx
    have hy : y ≠ .nan := fun h => nomatch hp.symm.trans (point?_eq_none_iff.mpr (congrArg float h))
    by_cases hfin : y.IsFinite
    · obtain ⟨a, ha, hvalue⟩ := point?_finite hfin
      obtain rfl := Option.some.inj (hp.symm.trans ha)
      rw [Point.closest, hvalue, mul_div_cancel_right₀ _ Magnitude.unitsPerOne_cast_pos.ne']
      exact (Binary64.isNearest_value hy).clamped
    · obtain ⟨s, rfl⟩ := Binary64.eq_infinite_of_not_isFinite hy hfin
      obtain rfl := Option.some.inj (hp.symm.trans (point?_infinite s))
      cases s
      · have hone : Membership.clamped (.infinite false) = .one := by decide
        simpa [hone, Point.closest] using Binary64.isNearest_value (x := .one) (by decide)
      · have hzero : Membership.clamped (.infinite true) = .zero := by decide
        simpa [hzero, Point.closest] using Binary64.isNearest_value (x := .zero) (by decide)

/-! ## Numbers in range -/

/-- An exact number outside `[0, 1]` that is rounded into it. -/
def RoundsIn (raw : Number) : Prop :=
  ∃ q, raw.asRatio? = some q ∧
    (-Magnitude.underflow ≤ q ∧ q < 0 ∨ 1 < q ∧ q ≤ 1 + 1 / 2 ^ 53)

theorem inRange_float (x : Binary64) : Membership.inRange (.float x) = x.isDegree := by
  rcases eq_or_ne x .nan with rfl | hx
  · rfl
  · rw [Membership.inRange, le_float (by decide) hx, le_float hx (by decide), Binary64.isDegree]

theorem inRange_exact (h : raw.asRatio? = some q) :
    Membership.inRange raw = true ↔ 0 ≤ q ∧ q ≤ 1 := by
  have hU := Magnitude.unitsPerOne_cast_pos.ne'
  obtain ⟨a, ha, hzero⟩ := point?_finite (Binary64.isFinite_of_isDegree (x := .zero) (by decide))
  obtain ⟨c, hc, hone⟩ := point?_finite Binary64.isFinite_one
  have hq := point?_exact h
  rw [Membership.inRange, Bool.and_eq_true, le_iff_of_finite ha hq, le_iff_of_finite hq hc, hzero,
    hone, mul_div_cancel_right₀ _ hU, mul_div_cancel_right₀ _ hU, Rat.num_div_den,
    Binary64.value_zero, Binary64.value_one]

/-- **The nearest double is a degree exactly for the numbers in `[0, 1]` and those rounded into
it.** -/
theorem isDegree_quotient_iff (h : raw.asRatio? = some q) :
    (quotient q.num q.den).isDegree = true ↔ Membership.inRange raw = true ∨ raw.RoundsIn := by
  have hsmall := Magnitude.underflow_pos
  have hrounds : raw.RoundsIn ↔
      -Magnitude.underflow ≤ q ∧ q < 0 ∨ 1 < q ∧ q ≤ 1 + 1 / 2 ^ 53 := by simp [RoundsIn, h]
  rw [(Binary64.isNearest_quotient q).isDegree_iff, inRange_exact h, hrounds]
  constructor
  · rintro ⟨hlow, hhigh⟩
    rcases lt_or_ge q 0 with hneg | hnonneg
    · exact .inr (.inl ⟨hlow, hneg⟩)
    rcases le_or_gt q 1 with hle | hgt
    · exact .inl ⟨hnonneg, hle⟩
    · exact .inr (.inr ⟨hgt, hhigh⟩)
  · rintro (⟨hlow, hhigh⟩ | ⟨hlow, hhigh⟩ | ⟨hlow, hhigh⟩)
    · exact ⟨by linarith, by linarith⟩
    · exact ⟨hlow, by linarith⟩
    · exact ⟨by linarith, hhigh⟩

theorem isDegree_iff (h : raw.toBinary64 = .ok x) :
    x.isDegree = true ↔ Membership.inRange raw = true ∨ raw.RoundsIn := by
  cases hq : raw.asRatio? with
  | none =>
    obtain ⟨y, rfl⟩ := asRatio?_eq_none hq
    obtain rfl : y = x := Except.ok.inj h
    rw [inRange_float]
    exact (or_iff_left fun ⟨q, hq, _⟩ => nomatch hq).symm
  | some q =>
    rw [toBinary64_exact hq] at h
    split at h
    case isTrue => cases h
    case isFalse => exact Except.ok.inj h ▸ isDegree_quotient_iff hq

/-- A number rounded into `[0, 1]` lies outside. -/
theorem RoundsIn.not_inRange (h : raw.RoundsIn) : Membership.inRange raw = false := by
  obtain ⟨q, hq, hbounds⟩ := h
  rw [Bool.eq_false_iff, ne_eq, inRange_exact hq]
  rintro ⟨h₀, h₁⟩
  rcases hbounds with ⟨-, hlt⟩ | ⟨hlt, -⟩ <;> linarith

/-- A number beyond the doubles is outside `[0, 1]`, and rounded to a double outside. -/
theorem Beyond.outside (h : raw.Beyond) : ¬ (Membership.inRange raw = true ∨ raw.RoundsIn) := by
  obtain ⟨q, hq, hle⟩ := h
  rw [← isDegree_quotient_iff hq, quotient_eq_infinite_iff.mpr hle]
  cases decide (q.num < 0) <;> decide

end Number

end FuzzyLogic
