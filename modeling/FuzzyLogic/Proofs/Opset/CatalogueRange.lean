import FuzzyLogic.Proofs.Expr.OneOpset
import FuzzyLogic.Proofs.Number.Comparison

/-!
# Proofs/Opset/CatalogueRange — the catalogue keeps to `[0, 1]`

Every hook of the catalogue takes degrees to degrees: nothing is divided by zero, and no result is
NaN or infinite.  All intermediate results are of moderate size, hence finite, and rounding keeps
them on the side of `0`, `1` and `2` that the exact ones lie on.

Of the three denominators two are guarded or at least one.  The third, `((2 - a) - b) + ab`, is
positive (`hamacher2_denominator_pos`): its first summand vanishes only where `b = 1` and `2 - a`
rounds to `1`, and there the second one is `a` itself.
-/

namespace FuzzyLogic

namespace Catalogue

variable {a b x : Binary64}

/-! ## Clamping and division on doubles -/

theorem clamp_float (hx : x ≠ .nan) : clamp (.float x) = .float (Membership.clamped x) := by
  have hzero : Binary64.zero ≠ .nan := by decide
  have hone : Binary64.one ≠ .nan := by decide
  rw [clamp, zero, one, Number.max_float hx hzero,
    Number.min_float (Binary64.max_ne_nan hx hzero) hone, Membership.clamped]

/-- The outcome is a double in `[0, 1]`. -/
def IsDegreeOutcome (r : Except Fault Number) : Prop :=
  ∃ x : Binary64, r = .ok (.float x) ∧ x.isDegree = true

theorem isDegreeOutcome_clamp (hx : x ≠ .nan) : IsDegreeOutcome (.ok (clamp (.float x))) :=
  ⟨_, by rw [clamp_float hx], Binary64.isDegree_clamped hx⟩

/-- Finite doubles are divided by a divisor that is not zero. -/
theorem quotient_eq (ha : a.IsFinite) (hb : b.IsFinite) (h0 : b.value ≠ 0) :
    (do return clamp (← Number.div (.float a) (.float b)) : Except Fault Number) =
      .ok (.float (Membership.clamped (a / b))) := by
  have hzero : b.equals .zero = false := by
    rw [Bool.eq_false_iff, ne_eq, Binary64.equals_iff_value hb.ne_nan (by decide)]
    simpa using h0
  have hdiv : Number.div (.float a) (.float b) = .ok (.float (a / b)) := by
    simp [Number.div, hzero]
  rw [hdiv]
  exact congrArg Except.ok (clamp_float (Binary64.isNearest_div ha hb h0).ne_nan)

/-- The clamped quotient is a degree. -/
theorem isDegreeOutcome_quotient (ha : a.IsFinite) (hb : b.IsFinite) (h0 : b.value ≠ 0) :
    IsDegreeOutcome (do return clamp (← Number.div (.float a) (.float b))) :=
  ⟨_, quotient_eq ha hb h0, Binary64.isDegree_clamped (Binary64.isNearest_div ha hb h0).ne_nan⟩

/-! ## Intermediate results -/

section Intermediate

variable (ha : a.isDegree = true) (hb : b.isDegree = true)
include ha hb

theorem isNearest_sum : (a + b).IsNearest (a.value + b.value) :=
  Binary64.isNearest_add (Binary64.isFinite_of_isDegree ha) (Binary64.isFinite_of_isDegree hb)

theorem isNearest_product : (a * b).IsNearest (a.value * b.value) :=
  Binary64.isNearest_mul (Binary64.isFinite_of_isDegree ha) (Binary64.isFinite_of_isDegree hb)

theorem value_sum_bounds : 0 ≤ (a + b).value ∧ (a + b).value ≤ 2 := by
  obtain ⟨-, ha₀, ha₁⟩ := Binary64.isDegree_iff.mp ha
  obtain ⟨-, hb₀, hb₁⟩ := Binary64.isDegree_iff.mp hb
  exact ⟨(isNearest_sum ha hb).nonneg (by linarith), (isNearest_sum ha hb).le_two (by linarith)⟩

theorem isFinite_sum : (a + b).IsFinite := by
  obtain ⟨h₀, h₂⟩ := value_sum_bounds ha hb
  exact Binary64.isFinite_of_abs_le (isNearest_sum ha hb).ne_nan (abs_le.mpr ⟨by linarith, by linarith⟩)

theorem isDegree_product : (a * b).isDegree = true := by
  obtain ⟨-, ha₀, ha₁⟩ := Binary64.isDegree_iff.mp ha
  obtain ⟨-, hb₀, hb₁⟩ := Binary64.isDegree_iff.mp hb
  exact (isNearest_product ha hb).isDegree (mul_nonneg ha₀ hb₀) (mul_le_one₀ ha₁ hb₀ hb₁)

end Intermediate

theorem isDegree_complement (hx : x.isDegree = true) : (Binary64.one - x).isDegree = true := by
  obtain ⟨-, h₀, h₁⟩ := Binary64.isDegree_iff.mp hx
  have h := Binary64.isNearest_sub Binary64.isFinite_one (Binary64.isFinite_of_isDegree hx)
  rw [Binary64.value_one] at h
  exact h.isDegree (by linarith) (by linarith)

/-- The difference of two doubles of `[0, 2]` is finite. -/
theorem isFinite_difference (ha : a.IsFinite) (hb : b.IsFinite) (ha₀ : 0 ≤ a.value)
    (ha₂ : a.value ≤ 2) (hb₀ : 0 ≤ b.value) (hb₂ : b.value ≤ 2) : (a - b).IsFinite :=
  (Binary64.isNearest_sub ha hb).isFinite (by linarith) (by linarith)

/-! ## The Yager sets -/

theorem yager1_disjunction (ha : a.isDegree = true) (hb : b.isDegree = true) :
    IsDegreeOutcome (Yager1.disjunction (.float a) (.float b)) := by
  have hone : Binary64.one ≠ .nan := by decide
  have hsum := (isNearest_sum ha hb).ne_nan
  refine ⟨(a + b).min .one, congrArg Except.ok (Number.min_float hsum hone), ?_⟩
  refine Binary64.isDegree_iff.mpr ⟨Binary64.min_ne_nan hsum hone, ?_, ?_⟩
  · rw [Binary64.value_min hsum hone, Binary64.value_one]
    exact le_min (value_sum_bounds ha hb).1 zero_le_one
  · rw [Binary64.value_min hsum hone, Binary64.value_one]
    exact min_le_right _ _

/-- What is subtracted from in the conjunction is at least one. -/
theorem isNearest_yager1_conjunction (ha : a.isDegree = true) (hb : b.isDegree = true) :
    ((a + b).max .one - .one).IsNearest (max (a + b).value 1 - 1) := by
  have hone : Binary64.one ≠ .nan := by decide
  have hsum := (isNearest_sum ha hb).ne_nan
  have hmax : ((a + b).max .one).value = max (a + b).value 1 := by
    rw [Binary64.value_max hsum hone, Binary64.value_one]
  have hlow : 1 ≤ ((a + b).max .one).value := by rw [hmax]; exact le_max_right _ _
  have hhigh : ((a + b).max .one).value ≤ 2 := by
    rw [hmax]
    exact max_le (value_sum_bounds ha hb).2 one_le_two
  have hfin : ((a + b).max .one).IsFinite :=
    Binary64.isFinite_of_abs_le (Binary64.max_ne_nan hsum hone)
      (abs_le.mpr ⟨by linarith, by linarith⟩)
  have h := Binary64.isNearest_sub hfin Binary64.isFinite_one
  rwa [hmax, Binary64.value_one] at h

theorem yager1_conjunction_eq (ha : a.isDegree = true) (hb : b.isDegree = true) :
    Yager1.conjunction (.float a) (.float b) = .ok (.float ((a + b).max .one - .one)) :=
  congrArg (fun n => Number.sub n one)
    (Number.max_float (isNearest_sum ha hb).ne_nan (by decide))

theorem yager1_conjunction (ha : a.isDegree = true) (hb : b.isDegree = true) :
    IsDegreeOutcome (Yager1.conjunction (.float a) (.float b)) := by
  have hmax := max_le (value_sum_bounds ha hb).2 one_le_two
  refine ⟨_, yager1_conjunction_eq ha hb, (isNearest_yager1_conjunction ha hb).isDegree ?_ ?_⟩
  · linarith [le_max_right (a + b).value 1]
  · linarith

theorem yagerInf_disjunction (ha : a.isDegree = true) (hb : b.isDegree = true) :
    IsDegreeOutcome (YagerInf.disjunction (.float a) (.float b)) := by
  obtain ⟨hna, -, -⟩ := Binary64.isDegree_iff.mp ha
  obtain ⟨hnb, -, -⟩ := Binary64.isDegree_iff.mp hb
  refine ⟨a.max b, congrArg Except.ok (Number.max_float hna hnb), ?_⟩
  unfold Binary64.max
  split <;> assumption

theorem yagerInf_conjunction (ha : a.isDegree = true) (hb : b.isDegree = true) :
    IsDegreeOutcome (YagerInf.conjunction (.float a) (.float b)) := by
  obtain ⟨hna, -, -⟩ := Binary64.isDegree_iff.mp ha
  obtain ⟨hnb, -, -⟩ := Binary64.isDegree_iff.mp hb
  refine ⟨a.min b, congrArg Except.ok (Number.min_float hna hnb), ?_⟩
  unfold Binary64.min
  split <;> assumption

/-! ## The Hamacher sets -/

/-- A guard on the denominator: where it is zero a limit stands in for the quotient. -/
theorem guarded_eq {d n limit : Binary64} (hd : d.IsFinite) (hn : n.IsFinite) :
    (if (Number.float d).equals zero then return .float limit
      else do return clamp (← Number.div (.float n) (.float d)) : Except Fault Number) =
      .ok (.float (if d.value = 0 then limit else Membership.clamped (n / d))) := by
  rw [zero, Number.equals_float hd.ne_nan (by decide)]
  have hiff : d.equals .zero = true ↔ d.value = 0 := by
    rw [Binary64.equals_iff_value hd.ne_nan (by decide), Binary64.value_zero]
  by_cases h : d.value = 0
  · rw [if_pos (hiff.mpr h), if_pos h]
    rfl
  · rw [if_neg (mt hiff.mp h), if_neg h, quotient_eq hn hd h]

theorem isDegreeOutcome_guarded {d n limit : Binary64} (hd : d.IsFinite) (hn : n.IsFinite)
    (hlimit : limit.isDegree = true) :
    IsDegreeOutcome (if (Number.float d).equals zero then return .float limit
      else do return clamp (← Number.div (.float n) (.float d))) := by
  refine ⟨_, guarded_eq hd hn, ?_⟩
  split
  case isTrue => exact hlimit
  case isFalse h => exact Binary64.isDegree_clamped (Binary64.isNearest_div hn hd h).ne_nan

/-- The numerator `(a + b) - 2ab` is finite. -/
theorem isFinite_sum_sub_twice_product (ha : a.isDegree = true) (hb : b.isDegree = true) :
    (a + b - Binary64.two * a * b).IsFinite := by
  obtain ⟨-, ha₀, ha₁⟩ := Binary64.isDegree_iff.mp ha
  obtain ⟨-, hb₀, hb₁⟩ := Binary64.isDegree_iff.mp hb
  obtain ⟨hs₀, hs₂⟩ := value_sum_bounds ha hb
  -- `2a` and `2ab` lie in `[0, 2]`
  have htwice := Binary64.isNearest_mul Binary64.isFinite_two (Binary64.isFinite_of_isDegree ha)
  rw [Binary64.value_two] at htwice
  have ht₀ := htwice.nonneg (by linarith)
  have ht₂ := htwice.le_two (by linarith)
  have hprod := Binary64.isNearest_mul (htwice.isFinite (by linarith) (by linarith))
    (Binary64.isFinite_of_isDegree hb)
  have hp₀ : 0 ≤ (Binary64.two * a).value * b.value := mul_nonneg ht₀ hb₀
  have hp₂ : (Binary64.two * a).value * b.value ≤ 2 :=
    (mul_le_of_le_one_right ht₀ hb₁).trans ht₂
  exact isFinite_difference (isFinite_sum ha hb) (hprod.isFinite (by linarith) (by linarith))
    hs₀ hs₂ (hprod.nonneg hp₀) (hprod.le_two hp₂)

theorem hamacher0_disjunction (ha : a.isDegree = true) (hb : b.isDegree = true) :
    IsDegreeOutcome (Hamacher0.disjunction (.float a) (.float b)) :=
  isDegreeOutcome_guarded
    (Binary64.isFinite_of_isDegree (isDegree_complement (isDegree_product ha hb)))
    (isFinite_sum_sub_twice_product ha hb) (by decide)

/-- The difference `(a + b) - ab` is finite. -/
theorem isFinite_sum_sub_product (ha : a.isDegree = true) (hb : b.isDegree = true) :
    (a + b - a * b).IsFinite := by
  obtain ⟨hs₀, hs₂⟩ := value_sum_bounds ha hb
  obtain ⟨-, hp₀, hp₁⟩ := Binary64.isDegree_iff.mp (isDegree_product ha hb)
  exact isFinite_difference (isFinite_sum ha hb)
    (Binary64.isFinite_of_isDegree (isDegree_product ha hb)) hs₀ hs₂ hp₀ (by linarith)

theorem hamacher0_conjunction (ha : a.isDegree = true) (hb : b.isDegree = true) :
    IsDegreeOutcome (Hamacher0.conjunction (.float a) (.float b)) :=
  isDegreeOutcome_guarded (isFinite_sum_sub_product ha hb)
    (Binary64.isFinite_of_isDegree (isDegree_product ha hb)) (by decide)

theorem hamacher1_disjunction (ha : a.isDegree = true) (hb : b.isDegree = true) :
    IsDegreeOutcome (Hamacher1.disjunction (.float a) (.float b)) :=
  isDegreeOutcome_clamp (isFinite_sum_sub_product ha hb).ne_nan

theorem hamacher1_conjunction (ha : a.isDegree = true) (hb : b.isDegree = true) :
    IsDegreeOutcome (Hamacher1.conjunction (.float a) (.float b)) :=
  ⟨a * b, rfl, isDegree_product ha hb⟩

/-- The denominator `1 + ab` is at least one. -/
theorem hamacher2_disjunction (ha : a.isDegree = true) (hb : b.isDegree = true) :
    IsDegreeOutcome (Hamacher2.disjunction (.float a) (.float b)) := by
  have hprod := isDegree_product ha hb
  obtain ⟨-, hp₀, hp₁⟩ := Binary64.isDegree_iff.mp hprod
  have hden := Binary64.isNearest_add Binary64.isFinite_one (Binary64.isFinite_of_isDegree hprod)
  rw [Binary64.value_one] at hden
  have hone := hden.one_le (by linarith)
  exact isDegreeOutcome_quotient (isFinite_sum ha hb) (hden.isFinite (by linarith) (by linarith))
    (by linarith)

/-- The difference `(2 - a) - b`, and when it vanishes. -/
theorem two_sub_sub (ha : a.isDegree = true) (hb : b.isDegree = true) :
    (Binary64.two - a - b).IsFinite ∧ 0 ≤ (Binary64.two - a - b).value ∧
      (Binary64.two - a - b).value ≤ 2 ∧
      ((Binary64.two - a - b).value = 0 → b.value = 1 ∧ 0 < a.value) := by
  obtain ⟨-, ha₀, ha₁⟩ := Binary64.isDegree_iff.mp ha
  obtain ⟨-, hb₀, hb₁⟩ := Binary64.isDegree_iff.mp hb
  have hfb := Binary64.isFinite_of_isDegree hb
  have houter := Binary64.isNearest_sub Binary64.isFinite_two (Binary64.isFinite_of_isDegree ha)
  rw [Binary64.value_two] at houter
  have hone := houter.one_le (by linarith)
  have htwo := houter.le_two (by linarith)
  have hfin := houter.isFinite (by linarith) (by linarith)
  have hdiff := Binary64.isNearest_sub hfin hfb
  refine ⟨hdiff.isFinite (by linarith) (by linarith), hdiff.nonneg (by linarith),
    hdiff.le_two (by linarith), fun h => ?_⟩
  have hle : (Binary64.two - a).value ≤ b.value :=
    not_lt.mp fun hlt => (Binary64.value_sub_pos hfin hfb hlt).ne' h
  refine ⟨by linarith, ha₀.lt_of_ne fun h0 => ?_⟩
  -- without `a` the first difference would be two
  have := houter.value_eq (y := .two) (by decide) (by rw [← h0, Binary64.value_two, sub_zero])
  rw [Binary64.value_two] at this
  linarith

/-- **The unguarded denominator is positive.** -/
theorem hamacher2_denominator_pos (ha : a.isDegree = true) (hb : b.isDegree = true) :
    (Binary64.two - a - b + a * b).IsFinite ∧ 0 < (Binary64.two - a - b + a * b).value := by
  obtain ⟨hfin, h₀, h₂, hzero⟩ := two_sub_sub ha hb
  have hprod := isDegree_product ha hb
  obtain ⟨hnp, hp₀, hp₁⟩ := Binary64.isDegree_iff.mp hprod
  have hden := Binary64.isNearest_add hfin (Binary64.isFinite_of_isDegree hprod)
  refine ⟨hden.isFinite (by linarith) (by linarith), ?_⟩
  rcases h₀.eq_or_lt with h | h
  · obtain ⟨hb1, hapos⟩ := hzero h.symm
    have hpa : (a * b).value = a.value := (isNearest_product ha hb).value_eq
      (Binary64.isDegree_iff.mp ha).1 (by rw [hb1, mul_one])
    rw [← h, zero_add] at hden
    rw [hden.value_eq hnp rfl, hpa]
    exact hapos
  · exact h.trans_le (hden.value_ge hfin.ne_nan (by linarith))

theorem hamacher2_conjunction (ha : a.isDegree = true) (hb : b.isDegree = true) :
    IsDegreeOutcome (Hamacher2.conjunction (.float a) (.float b)) := by
  obtain ⟨hfin, hpos⟩ := hamacher2_denominator_pos ha hb
  exact isDegreeOutcome_quotient (Binary64.isFinite_of_isDegree (isDegree_product ha hb)) hfin
    hpos.ne'

/-! ## The catalogue as a whole -/

/-- A number that is a double in `[0, 1]`. -/
def IsDoubleDegree (n : Number) : Prop := ∃ x : Binary64, n = .float x ∧ x.isDegree = true

theorem isDegreeOutcome_iff {r : Except Fault Number} :
    IsDegreeOutcome r ↔ ∃ n, r = .ok n ∧ IsDoubleDegree n := by
  constructor
  · rintro ⟨x, hr, hx⟩
    exact ⟨_, hr, x, rfl, hx⟩
  · rintro ⟨_, hr, x, rfl, hx⟩
    exact ⟨x, hr, hx⟩

theorem isDegreeOutcome_negation {o : Opset} (ho : o ∈ all) (hx : x.isDegree = true) :
    IsDegreeOutcome (o.rawNot (.float x)) := by
  have h : IsDegreeOutcome (complement (.float x)) := ⟨_, rfl, isDegree_complement hx⟩
  rcases mem_all.mp ho with rfl | rfl | rfl | rfl | rfl <;> exact h

theorem isDegreeOutcome_disjunction {o : Opset} (ho : o ∈ all) (ha : a.isDegree = true)
    (hb : b.isDegree = true) : IsDegreeOutcome (o.rawOr (.float a) (.float b)) := by
  rcases mem_all.mp ho with rfl | rfl | rfl | rfl | rfl
  · exact yager1_disjunction ha hb
  · exact yagerInf_disjunction ha hb
  · exact hamacher0_disjunction ha hb
  · exact hamacher1_disjunction ha hb
  · exact hamacher2_disjunction ha hb

theorem isDegreeOutcome_conjunction {o : Opset} (ho : o ∈ all) (ha : a.isDegree = true)
    (hb : b.isDegree = true) : IsDegreeOutcome (o.rawAnd (.float a) (.float b)) := by
  rcases mem_all.mp ho with rfl | rfl | rfl | rfl | rfl
  · exact yager1_conjunction ha hb
  · exact yagerInf_conjunction ha hb
  · exact hamacher0_conjunction ha hb
  · exact hamacher1_conjunction ha hb
  · exact hamacher2_conjunction ha hb

/-- The hooks of the catalogue preserve doubles in `[0, 1]`. -/
theorem preserves_of_mem {o : Opset} (ho : o ∈ all) : o.Preserves IsDoubleDegree where
  not := by
    rintro _ ⟨x, rfl, hx⟩
    exact isDegreeOutcome_iff.mp (isDegreeOutcome_negation ho hx)
  or := by
    rintro _ _ ⟨a, rfl, ha⟩ ⟨b, rfl, hb⟩
    exact isDegreeOutcome_iff.mp (isDegreeOutcome_disjunction ho ha hb)
  and := by
    rintro _ _ ⟨a, rfl, ha⟩ ⟨b, rfl, hb⟩
    exact isDegreeOutcome_iff.mp (isDegreeOutcome_conjunction ho ha hb)

/-- **The catalogue keeps to `[0, 1]`.**  On doubles in `[0, 1]` the hooks of every set of the
catalogue raise nothing, a division by zero included, and give doubles in `[0, 1]`, which are
neither NaN nor infinite.  Hence every tree over validated leaves under a set of the catalogue
evaluates without fault to a double in `[0, 1]`. -/
theorem catalogue_keeps_degrees {o : Opset} (ho : o ∈ all) :
    (∀ x : Binary64, x.isDegree = true → IsDegreeOutcome (o.rawNot (.float x))) ∧
    (∀ a b : Binary64, a.isDegree = true → b.isDegree = true →
      IsDegreeOutcome (o.rawOr (.float a) (.float b)) ∧
      IsDegreeOutcome (o.rawAnd (.float a) (.float b))) ∧
    ∀ (F : OpsetFamily) (x : Node), Node.Built F x → x.opset = o → (∀ m ∈ x.leaves, m.Validated) →
      ∃ d : Binary64, x.evaluate = .ok ⟨.float d, o⟩ ∧ d.isDegree = true := by
  refine ⟨fun x hx => isDegreeOutcome_negation ho hx, ?_, ?_⟩
  · intro a b ha hb
    exact ⟨isDegreeOutcome_disjunction ho ha hb, isDegreeOutcome_conjunction ho ha hb⟩
  · rintro F x hx rfl hleaves
    obtain ⟨_, hd, d, rfl, hdeg⟩ :=
      Node.fold_preserves (preserves_of_mem ho) fun m hm =>
        Membership.validated_iff.mp (hleaves m hm)
    exact ⟨d, by rw [Node.evaluate_eq_fold hx.uniform.2, hd]; rfl, hdeg⟩

/-- The double `0.9406977951970535`, whose quotient with `1` rounds past `1` before it is clamped. -/
def offGrid : Binary64 := .signed false ⟨4606648272025111811, by decide⟩

/-- The guarded set at a pair of doubles that overshoots, and a tree over that pair. -/
theorem hamacher0_keeps_degrees_offGrid :
    hamacher0 ∈ all ∧ offGrid.isDegree = true ∧
    IsDegreeOutcome (hamacher0.rawOr (.float .one) (.float offGrid)) ∧
    IsDegreeOutcome (hamacher0.rawAnd (.float .one) (.float offGrid)) ∧
    ∃ d : Binary64, Node.evaluate (.and (.atom ⟨.float .one, hamacher0⟩)
      (.not (.atom ⟨.float offGrid, hamacher0⟩))) = .ok ⟨.float d, hamacher0⟩ ∧
      d.isDegree = true := by
  have hmem : hamacher0 ∈ all := by simp [all]
  have hone : Binary64.one.isDegree = true := by decide +kernel
  have hoff : offGrid.isDegree = true := by decide +kernel
  obtain ⟨-, hbinary, htree⟩ := catalogue_keeps_degrees hmem
  refine ⟨hmem, hoff, (hbinary _ _ hone hoff).1, (hbinary _ _ hone hoff).2, ?_⟩
  have hleft : Node.Built Node.choosingFamily (.atom ⟨.float .one, hamacher0⟩) :=
    .atom (List.mem_cons_of_mem _ hmem)
  have hright : Node.Built Node.choosingFamily (.atom ⟨.float offGrid, hamacher0⟩) :=
    .atom (List.mem_cons_of_mem _ hmem)
  refine htree Node.choosingFamily _ (.conjoin hleft (.negate hright) rfl) rfl fun m hm => ?_
  simp only [Node.leaves, List.mem_append, List.mem_singleton] at hm
  rcases hm with rfl | rfl
  · exact Membership.validated_of_isDegree hone _
  · exact Membership.validated_of_isDegree hoff _

end Catalogue

end FuzzyLogic
