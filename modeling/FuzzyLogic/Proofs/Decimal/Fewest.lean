import FuzzyLogic.Proofs.Binary64.Grid
import FuzzyLogic.Proofs.Decimal.ReadBack
import Mathlib.Algebra.Order.Floor.Semifield

/-!
# Proofs/Decimal/Fewest — no fewer digits read back

The rationals that a double is nearest to form an interval (`IsNearest.between`).  A grid of multiples
of `10 ^ k` has a point in it exactly if one of the two grid points around the double lies in it, so
that the search misses nothing (`gridPoint?_eq_none_iff`).  It begins with the place of the leading
digit and ends within nineteen grids, where a step is less than half the distance to the next double
(`onGrid_leadingPlace_sub`).  What it finds lies on the coarsest grid that has a point in the interval.

A decimal of fewer digits would lie on a coarser grid, or below the power of ten under the double; that
power then lies in the interval, and on a coarser grid too.  Hence **no decimal of fewer digits than
the shortest reads back** (`length_shortest_le`).
-/

namespace FuzzyLogic

namespace Magnitude

variable {m : Magnitude} {n : ℕ} {k : ℤ} {p q r : ℚ}

/-! ## The interval of a double -/

/-- Every nonnegative rational is a quotient of naturals. -/
theorem exists_quotient (hq : 0 ≤ q) :
    ∃ num den : ℕ, 0 < den ∧ q * unitsPerOne = num / den := by
  refine ⟨q.num.toNat * unitsPerOne, q.den, q.den_pos, ?_⟩
  have hnum : ((q.num.toNat : ℕ) : ℚ) = q.num := by
    exact_mod_cast Int.toNat_of_nonneg (Rat.num_nonneg.mpr hq)
  rw [Nat.cast_mul, hnum, mul_div_right_comm, Rat.num_div_den]

/-- To every nonnegative rational some magnitude is nearest. -/
theorem exists_isNearest (hq : 0 ≤ q) : ∃ n : Magnitude, n.IsNearest q := by
  obtain ⟨num, den, hden, hquot⟩ := exists_quotient hq
  have hnearest := isNearest_nearest num hden
  rw [← hquot, mul_div_cancel_right₀ _ unitsPerOne_cast_pos.ne'] at hnearest
  exact ⟨_, hnearest⟩

/-- The rationals that a double is nearest to form an interval. -/
theorem IsNearest.between (hp : m.IsNearest p) (hr : m.IsNearest r) (h₀ : 0 ≤ p) (hpq : p ≤ q)
    (hqr : q ≤ r) : m.IsNearest q := by
  obtain ⟨n, hn⟩ := exists_isNearest (h₀.trans hpq)
  obtain rfl : n = m := le_antisymm (hn.mono hr hqr) (hp.mono hn hpq)
  exact hn

/-- Rounding finds the rank of a finite double that is nearest. -/
theorem IsNearest.attracts_rank (h : m.IsNearest q) (hm : m < .top) (hq : 0 ≤ q) :
    Attracts m.val (q * unitsPerOne) := by
  obtain ⟨num, den, hden, hquot⟩ := exists_quotient hq
  have hrank := attracts_nearestRank num hden
  rw [← hquot] at hrank
  have hval : m.val = min (nearestRank num den) topRank :=
    congrArg Fin.val (h.unique (isNearest_of_attracts (m := nearest num den) rfl hrank))
  have hlt : m.val < topRank := hm
  rw [hval, min_eq_left (by omega)]
  exact hrank

/-- **What the test lets pass is what the double is nearest to.** -/
theorem attracts_iff_isNearest (hm : m < .top) :
    m.attracts n k = true ↔ m.IsNearest (Decimal.value ⟨n, k⟩) := by
  refine ⟨isNearest_of_attracts_eq, fun h => ?_⟩
  obtain ⟨hlow, hup, hinside⟩ := h.attracts_rank hm (Decimal.value_nonneg ⟨n, k⟩)
  have hends : (m.lowerEnd : ℚ) = FuzzyLogic.units (m.val - 1) + FuzzyLogic.units m.val ∧
      (m.upperEnd : ℚ) = FuzzyLogic.units m.val + FuzzyLogic.units (m.val + 1) := by
    simp [lowerEnd, upperEnd, units]
  rw [attracts_iff, hends.1, hends.2]
  split
  · exact ⟨hlow, hup⟩
  · exact hinside (by omega)

/-! ## Grids -/

/-- A multiple of `10 ^ k` reads back as the double. -/
def OnGrid (m : Magnitude) (k : ℤ) : Prop := ∃ n : ℕ, m.IsNearest (Decimal.value ⟨n, k⟩)

/-- Finer grids have all points of a coarser one. -/
theorem OnGrid.mono {l : ℤ} (h : m.OnGrid k) (hl : l ≤ k) : m.OnGrid l := by
  obtain ⟨n, hn⟩ := h
  obtain ⟨i, rfl⟩ := Int.le.dest hl
  refine ⟨n * 10 ^ i, ?_⟩
  have hvalue : Decimal.value ⟨n * 10 ^ i, l⟩ = Decimal.value ⟨n, l + i⟩ := by
    simp only [Decimal.value]
    rw [zpow_add₀ (by norm_num), zpow_natCast]
    push_cast
    ring
  rwa [hvalue]

/-- The grid point at or below a double. -/
def below (m : Magnitude) (k : ℤ) : ℕ :=
  2 * m.units * Decimal.lowering k / (2 * unitsPerOne * Decimal.raising k)

/-- The grid point is the whole part of the quotient by the step. -/
theorem le_below_iff : n ≤ m.below k ↔ Decimal.value ⟨n, k⟩ ≤ m.value := by
  have hraising := Decimal.raising_pos k
  have hlowering : (0 : ℚ) < Decimal.lowering k := by exact_mod_cast Decimal.lowering_pos k
  rw [below, Nat.le_div_iff_mul_le (Nat.mul_pos (Nat.mul_pos two_pos unitsPerOne_pos) hraising),
    Decimal.value, ← Decimal.raising_div_lowering, value, ← mul_div_assoc,
    div_le_div_iff₀ hlowering unitsPerOne_cast_pos, ← Nat.cast_mul, ← Nat.cast_mul, ← Nat.cast_mul,
    Nat.cast_le]
  constructor <;> intro h <;> nlinarith

/-- What is chosen is the grid point at or below the double, or the next one. -/
theorem le_of_gridPoint? (h : m.gridPoint? k = some n) : n ≤ m.below k + 1 := by
  simp only [gridPoint?] at h
  rw [← below] at h
  generalize 2 * m.units * Decimal.lowering k % (2 * unitsPerOne * Decimal.raising k) = rest at h
  grind

/-- **The two points around the double decide.** -/
theorem gridPoint?_eq_none_iff (hm : m < .top) : m.gridPoint? k = none ↔ ¬ m.OnGrid k := by
  refine ⟨fun hnone => ?_, fun hgrid => ?_⟩
  · have hneither : m.attracts (m.below k) k = false ∧ m.attracts (m.below k + 1) k = false := by
      simp only [gridPoint?] at hnone
      rw [← below] at hnone
      grind
    rintro ⟨n, hn⟩
    rcases Nat.lt_or_ge (m.below k) n with hlt | hle
    · -- the next point lies between the double and this one
      have hnext : m.value ≤ Decimal.value ⟨m.below k + 1, k⟩ :=
        (not_le.mp fun h => absurd (le_below_iff.mpr h) (by omega)).le
      have hstep : Decimal.value ⟨m.below k + 1, k⟩ ≤ Decimal.value ⟨n, k⟩ :=
        mul_le_mul_of_nonneg_right (Nat.cast_le.mpr hlt) (by positivity)
      have := (attracts_iff_isNearest hm).mpr
        (m.isNearest_value.between hn m.value_nonneg hnext hstep)
      rw [hneither.2] at this
      cases this
    · have hstep : Decimal.value ⟨n, k⟩ ≤ Decimal.value ⟨m.below k, k⟩ :=
        mul_le_mul_of_nonneg_right (Nat.cast_le.mpr hle) (by positivity)
      have := (attracts_iff_isNearest hm).mpr
        (hn.between m.isNearest_value (Decimal.value_nonneg _) hstep (le_below_iff.mp le_rfl))
      rw [hneither.1] at this
      cases this
  · cases hpoint : m.gridPoint? k with
    | none => rfl
    | some n => exact absurd ⟨n, isNearest_of_attracts_eq (attracts_of_gridPoint? hpoint)⟩ hgrid

/-! ## The search -/

/-- The digits of the whole part of a scaled number give the place of its leading digit. -/
theorem leading_of_floor (e : ℕ) (hq : 0 ≤ q) (h : ⌊q * 10 ^ e⌋₊ ≠ 0) :
    (10 : ℚ) ^ ((Decimal.digitList ⌊q * 10 ^ e⌋₊).length - (e : ℤ) - 1) ≤ q ∧
      q < 10 ^ ((Decimal.digitList ⌊q * 10 ^ e⌋₊).length - (e : ℤ)) := by
  have hlow := Nat.floor_le (mul_nonneg hq (by positivity : (0 : ℚ) ≤ 10 ^ e))
  have hup := Nat.lt_floor_add_one (q * 10 ^ e)
  set whole := ⌊q * 10 ^ e⌋₊ with hwhole
  obtain ⟨i, hi⟩ := Nat.exists_eq_succ_of_ne_zero (Decimal.length_digitList_pos whole).ne'
  have hdigits : (10 : ℚ) ^ i ≤ whole := by
    have := Decimal.pow_length_digitList_le h
    rw [hi, Nat.succ_sub_one] at this
    exact_mod_cast this
  have hdigits' : (whole + 1 : ℚ) ≤ 10 ^ (i + 1) := by
    have := Decimal.lt_pow_length_digitList whole
    rw [hi] at this
    exact_mod_cast this
  have hten : (10 : ℚ) ≠ 0 := by norm_num
  constructor
  · rw [hi, show ((i.succ : ℕ) : ℤ) - e - 1 = i - e by push_cast; ring, zpow_sub₀ hten,
      zpow_natCast, zpow_natCast, div_le_iff₀ (by positivity)]
    exact hdigits.trans hlow
  · rw [hi, zpow_sub₀ hten, zpow_natCast, zpow_natCast, lt_div_iff₀ (by positivity)]
    exact hup.trans_le hdigits'

/-- **The place of the leading digit** of a positive double. -/
theorem leadingPlace_spec (h : m ≠ .zero) :
    (10 : ℚ) ^ (m.leadingPlace - 1) ≤ m.value ∧ m.value < 10 ^ m.leadingPlace := by
  obtain ⟨e, he⟩ : ∃ e, e = 324 := ⟨_, rfl⟩
  have hplace : m.leadingPlace =
      (Decimal.digitList (m.units * 10 ^ e / unitsPerOne)).length - (e : ℤ) := by
    have hcast : (324 : ℤ) = e := by rw [he, Nat.cast_ofNat]
    rw [leadingPlace, ← he, Nat.pow_eq, hcast]
  have hfloor : ⌊m.value * 10 ^ e⌋₊ = m.units * 10 ^ e / unitsPerOne := by
    rw [← Nat.floor_div_eq_div (K := ℚ), value]
    push_cast
    ring_nf
  have hone : m.units * 10 ^ e / unitsPerOne ≠ 0 := by
    have hten : unitsPerOne ≤ 10 ^ e := by
      rw [← Nat.pow_eq, he]
      decide +kernel
    have hle : unitsPerOne ≤ m.units * 10 ^ e :=
      hten.trans (Nat.le_mul_of_pos_left _ (units_pos h))
    exact (Nat.div_pos hle unitsPerOne_pos).ne'
  rw [hplace, ← hfloor]
  exact leading_of_floor e m.value_nonneg (hfloor ▸ hone)

/-- The next double is a `2⁻⁵³`th part away, at least. -/
theorem units_mul_lt (r : ℕ) :
    (FuzzyLogic.units r : ℚ) < 2 ^ 53 * (FuzzyLogic.units (r + 1) - FuzzyLogic.units r) := by
  obtain ⟨shift, n, rfl, hn, hnormal⟩ := exists_mantissa r
  rw [units_mantissa hn.le hnormal, Nat.add_assoc,
    units_mantissa (by omega) (hnormal.imp (by omega) id)]
  have hlt : (n : ℚ) < 2 ^ 53 := by exact_mod_cast two_mul_binade ▸ hn
  have hpos : (0 : ℚ) < 2 ^ shift := by positivity
  push_cast
  nlinarith

/-- **Nineteen grids are enough**: on the last the steps are finer than half the way to the next
double. -/
theorem onGrid_leadingPlace_sub (h : m ≠ .zero) : m.OnGrid (m.leadingPlace - 18) := by
  set k := m.leadingPlace - 18 with hk
  have hnext : m.value < Decimal.value ⟨m.below k + 1, k⟩ :=
    not_le.mp fun hle => absurd (le_below_iff.mpr hle) (by omega)
  have hstep : Decimal.value ⟨m.below k + 1, k⟩ ≤ m.value + 10 ^ k := by
    have := le_below_iff.mp (le_refl (m.below k))
    rw [Decimal.value] at this ⊢
    push_cast
    linarith
  have hsmall : 10 ^ 17 * (10 : ℚ) ^ k ≤ m.value := by
    rw [← zpow_natCast, ← zpow_add₀ (by norm_num)]
    have hexp : ((17 : ℕ) : ℤ) + k = m.leadingPlace - 1 := by
      rw [hk]
      push_cast
      ring
    exact hexp ▸ (leadingPlace_spec h).1
  have hgap := units_mul_lt m.val
  have hU := unitsPerOne_cast_pos
  have hvalue : m.value * unitsPerOne = FuzzyLogic.units m.val := m.value_mul_unitsPerOne
  have htop : m.val ≤ topRank := Nat.le_of_lt_succ m.isLt
  refine ⟨m.below k + 1, isNearest_of_attracts (r := m.val) (by omega) ?_⟩
  have hhalf : 2 * (Decimal.value ⟨m.below k + 1, k⟩ * unitsPerOne) <
      FuzzyLogic.units m.val + FuzzyLogic.units (m.val + 1) := by
    have hu : 2 * (10 : ℚ) ^ k * unitsPerOne * 2 ^ 53 ≤ FuzzyLogic.units m.val := by
      rw [← hvalue]
      have : 2 * (10 : ℚ) ^ k * 2 ^ 53 ≤ m.value := by
        have hpos : (0 : ℚ) < 10 ^ k := by positivity
        linarith
      nlinarith
    have hle := mul_le_mul_of_nonneg_right hstep hU.le
    rw [add_mul, hvalue] at hle
    linarith
  refine attracts_below ?_ hhalf.le fun _ => hhalf
  rw [← hvalue]
  exact mul_le_mul_of_nonneg_right hnext.le hU.le

/-- **The search stops at the first grid that has a point**, if it gets there. -/
theorem searchDecimal_spec {grids i : ℕ} (hi : i < grids) (h : m.gridPoint? (k - i) ≠ none) :
    ∃ n j, m.searchDecimal grids k = ⟨n, j⟩ ∧ m.gridPoint? j = some n ∧ j ≤ k ∧
      ∀ l, j < l → l ≤ k → m.gridPoint? l = none := by
  induction grids generalizing k i with
  | zero => cases hi
  | succ grids ih =>
    cases hpoint : m.gridPoint? k with
    | some n =>
      refine ⟨n, k, by rw [searchDecimal, hpoint], hpoint, le_rfl, fun l hl hlk => ?_⟩
      omega
    | none =>
      cases i with
      | zero =>
        rw [Nat.cast_zero, sub_zero] at h
        exact absurd hpoint h
      | succ i =>
        rw [Nat.cast_succ, sub_add_eq_sub_sub_swap] at h
        obtain ⟨n, j, hsearch, hn, hj, hfirst⟩ := ih (Nat.lt_of_succ_lt_succ hi) h
        refine ⟨n, j, by rw [searchDecimal, hpoint, hsearch], hn, by omega, fun l hl hlk => ?_⟩
        rcases eq_or_lt_of_le hlk with rfl | hlt
        · exact hpoint
        · exact hfirst l hl (by omega)

end Magnitude

/-! ## Zeros at the end -/

namespace Decimal

theorem digits_trimmed_le (d : Decimal) : d.trimmed.digits ≤ d.digits := by
  fun_induction trimmed d with
  | case1 d h ih => exact ih.trans (Nat.div_le_self d.digits 10)
  | case2 => exact le_rfl

/-- No zero is left at the end. -/
theorem digits_trimmed_mod_ten (d : Decimal) (h : d.digits ≠ 0) : d.trimmed.digits % 10 ≠ 0 := by
  fun_induction trimmed d with
  | case1 d hzero ih => exact ih (by dsimp only; omega)
  | case2 d hlast => exact fun hzero => hlast ⟨h, hzero⟩

/-- Smaller numbers have no more digits. -/
theorem length_digitList_mono {a b : ℕ} (h : a ≤ b) :
    (digitList a).length ≤ (digitList b).length :=
  (length_digitList_le_iff (length_digitList_pos b)).mpr (h.trans_lt (lt_pow_length_digitList b))

end Decimal

namespace Magnitude

variable {m : Magnitude}

/-! ## Fewest digits -/

/-- Zero is nearest to zero only. -/
theorem digits_ne_zero_of_isNearest {d : Decimal} (hm : m ≠ .zero) (h : m.IsNearest d.value) :
    d.digits ≠ 0 := by
  intro hzero
  rw [Decimal.value_of_digits_eq_zero hzero, ← value_zero] at h
  exact hm (h.unique zero.isNearest_value)

/-- Digits found on a grid above which there is none: the first place and the grid bound their
number. -/
theorem exists_searchDecimal (hm : m ≠ .zero) (htop : m < .top) :
    ∃ n j, m.searchDecimal 800 m.leadingPlace = ⟨n, j⟩ ∧ m.IsNearest (Decimal.value ⟨n, j⟩) ∧
      n ≤ m.below j + 1 ∧ j ≤ m.leadingPlace ∧ (j < m.leadingPlace → ¬ m.OnGrid (j + 1)) := by
  have hgrid : m.gridPoint? (m.leadingPlace - (18 : ℕ)) ≠ none := fun hnone =>
    (gridPoint?_eq_none_iff htop).mp hnone (onGrid_leadingPlace_sub hm)
  obtain ⟨n, j, hsearch, hn, hj, hfirst⟩ := searchDecimal_spec (by decide : 18 < 800) hgrid
  exact ⟨n, j, hsearch, isNearest_of_attracts_eq (attracts_of_gridPoint? hn), le_of_gridPoint? hn,
    hj, fun hlt => (gridPoint?_eq_none_iff htop).mp (hfirst (j + 1) (by omega) (by omega))⟩

/-- **The digits of the shortest fill the places from the leading one to the coarsest grid that has
a point**, one at least. -/
theorem exists_place (hm : m ≠ .zero) (htop : m < .top) :
    ∃ places : ℕ, (Decimal.digitList m.shortest.digits).length ≤ places + 1 ∧
      (0 < places → ¬ m.OnGrid (m.leadingPlace - places)) := by
  obtain ⟨n, j, hsearch, hnear, hle, hj, hcoarsest⟩ := exists_searchDecimal hm htop
  have hlength : (Decimal.digitList m.shortest.digits).length ≤ (Decimal.digitList n).length := by
    rw [shortest, hsearch]
    exact Decimal.length_digitList_mono (Decimal.digits_trimmed_le ⟨n, j⟩)
  obtain ⟨c, hc⟩ := Int.le.dest hj
  -- the grid point below has no more places than the double
  have hbelow : m.below j < 10 ^ c := by
    have hvalue := (le_below_iff.mp (le_refl (m.below j))).trans_lt (leadingPlace_spec hm).2
    rw [Decimal.value, ← hc, add_comm, zpow_add₀ (by norm_num), zpow_natCast] at hvalue
    exact_mod_cast lt_of_mul_lt_mul_right hvalue (by positivity)
  cases c with
  | zero =>
    refine ⟨0, hlength.trans ?_, fun h => absurd h (lt_irrefl 0)⟩
    rw [pow_zero] at hbelow
    exact (Decimal.length_digitList_le_iff one_pos).mpr (by omega)
  | succ c =>
    have hlt : j < m.leadingPlace := by omega
    have hnot := hcoarsest hlt
    have hn : n ≠ 10 ^ (c + 1) := by
      rintro rfl
      refine hnot (OnGrid.mono ⟨1, ?_⟩ (show j + 1 ≤ m.leadingPlace by omega))
      have hvalue : Decimal.value ⟨10 ^ (c + 1), j⟩ = Decimal.value ⟨1, m.leadingPlace⟩ := by
        simp only [Decimal.value]
        rw [← hc, add_comm j, zpow_add₀ (by norm_num), zpow_natCast]
        push_cast
        ring
      rwa [← hvalue]
    refine ⟨c, hlength.trans ?_, fun hpos => ?_⟩
    · exact (Decimal.length_digitList_le_iff c.succ_pos).mpr (by omega)
    · rwa [show m.leadingPlace - c = j + 1 by omega]

/-- **No decimal of fewer digits than the shortest reads back.** -/
theorem length_shortest_le (hm : m ≠ .zero) (htop : m < .top) {d : Decimal}
    (h : m.IsNearest d.value) :
    (Decimal.digitList m.shortest.digits).length ≤ (Decimal.digitList d.digits).length := by
  obtain ⟨places, hle, hcoarsest⟩ := exists_place hm htop
  by_contra hlt
  have hlength := Decimal.length_digitList_pos d.digits
  have hpos : 0 < places := by omega
  refine hcoarsest hpos ?_
  rcases le_or_gt (m.leadingPlace - places) d.exponent with hexp | hexp
  · exact OnGrid.mono ⟨d.digits, h⟩ hexp
  · -- few digits of a low place end below the leading place of the double
    have hleading : d.leading ≤ m.leadingPlace - 1 := by
      unfold Decimal.leading
      omega
    have hpower : Decimal.value ⟨1, m.leadingPlace - 1⟩ = 10 ^ (m.leadingPlace - 1) := by
      rw [Decimal.value, Nat.cast_one, one_mul]
    have hbetween : m.IsNearest (Decimal.value ⟨1, m.leadingPlace - 1⟩) := by
      rw [hpower]
      refine h.between m.isNearest_value d.value_nonneg ?_ (leadingPlace_spec hm).1
      exact d.value_lt_leading.le.trans (zpow_le_zpow_right₀ (by norm_num) hleading)
    exact OnGrid.mono ⟨1, hbetween⟩ (by omega)

end Magnitude

end FuzzyLogic
