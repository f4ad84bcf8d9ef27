import FuzzyLogic.Proofs.Opset.CatalogueBoundary

/-!
# Proofs/Opset/CatalogueNegation — negating degrees again and again

The difference from one is exact from one half on (`rounded_one_sub_eq`), since doubles there are
whole steps of `2⁻⁵³`.  Below one half it is rounded, but then it lies in the upper half itself.  So
**the second negation is always exact**, and takes back what the first has done up to its rounding:
two negations give the degree itself from one half on (`complement_complement`), and something within
`2⁻⁵⁴` of it below (`abs_complement_complement_sub_le`).

A third negation therefore gives what the first has given (`complement_thrice`), to the sign of zero,
so that a stack of negations, over whatever tree, is one of one or two (`negation_laws`).
-/

namespace FuzzyLogic

namespace Catalogue

open Binary64 (rounded IsValue)

variable {x y d : Binary64} {o : Opset} {p : ℚ} {t : Node}

/-! ## The rounded difference from one -/

/-- From one half on the difference from one is exact. -/
theorem rounded_one_sub_eq (hp : IsValue p) (h : 1 / 2 ≤ p) (hp₁ : p ≤ 1) :
    rounded (1 - p) = 1 - p := by
  obtain ⟨-, -, hexact⟩ := exists_steps_gap_of_half_le hp hp₁ h
  exact hexact

/-- From one half on two negations are none. -/
theorem rounded_one_sub_twice (hp : IsValue p) (h : 1 / 2 ≤ p) (hp₁ : p ≤ 1) :
    rounded (1 - rounded (1 - p)) = p := by
  rw [rounded_one_sub_eq hp h hp₁, sub_sub_cancel, hp.rounded_eq]

/-- Up to one half the second negation is exact. -/
theorem rounded_one_sub_twice_of_le (hp₀ : 0 ≤ p) (h : p ≤ 1 / 2) :
    rounded (1 - rounded (1 - p)) = 1 - rounded (1 - p) :=
  rounded_one_sub_eq (Binary64.isValue_rounded _) (isValue_half.le_rounded (by linarith))
    (Binary64.rounded_le_one (by linarith))

/-- Two negations go as far as the first one is rounded. -/
theorem abs_rounded_one_sub_twice_sub_le (hp : IsValue p) (hp₀ : 0 ≤ p) (hp₁ : p ≤ 1) :
    |rounded (1 - rounded (1 - p)) - p| ≤ 1 / 2 ^ 54 := by
  rcases le_total (1 / 2) p with h | h
  · rw [rounded_one_sub_twice hp h hp₁, sub_self, abs_zero]
    positivity
  · rw [rounded_one_sub_twice_of_le hp₀ h, sub_right_comm, abs_sub_comm]
    exact abs_rounded_one_sub_le hp₀ hp₁

/-- A third negation does what the first has done. -/
theorem rounded_one_sub_thrice (hp : IsValue p) (hp₀ : 0 ≤ p) (hp₁ : p ≤ 1) :
    rounded (1 - rounded (1 - rounded (1 - p))) = rounded (1 - p) := by
  rcases le_total (1 / 2) p with h | h
  · rw [rounded_one_sub_twice hp h hp₁]
  · exact rounded_one_sub_twice (Binary64.isValue_rounded _) (isValue_half.le_rounded (by linarith))
      (Binary64.rounded_le_one (by linarith))

/-! ## Degrees -/

/-- A double that is not zero is known by its value. -/
theorem eq_of_value_eq (hx : x ≠ .nan) (hy : y ≠ .nan) (hpos : 0 < x.value)
    (h : x.value = y.value) : x = y := by
  have positive : ∀ z : Binary64, z ≠ .nan → 0 < z.value → ∃ m : Magnitude, z = .signed false m := by
    rintro (_ | ⟨_ | _, m⟩) hz hpos
    · exact absurd rfl hz
    · exact ⟨m, rfl⟩
    · rw [Binary64.value_signed_true] at hpos
      linarith [m.value_nonneg]
  obtain ⟨m, rfl⟩ := positive x hx hpos
  obtain ⟨n, rfl⟩ := positive y hy (h ▸ hpos)
  rw [Magnitude.value_inj.mp h]

/-- A negation is never a negative zero. -/
theorem complement_eq_zero (hx : x.isDegree = true) (h : (Binary64.one - x).value = 0) :
    Binary64.one - x = .zero := by
  obtain ⟨hnan, hx₀, hx₁⟩ := Binary64.isDegree_iff.mp hx
  rw [value_complement hx] at h
  have hone : x.value = 1 := by
    rcases le_total (1 / 2) x.value with hhalf | hhalf
    · rw [rounded_one_sub_eq (Binary64.isValue_value hnan) hhalf hx₁] at h
      linarith
    · linarith [isValue_half.le_rounded (q := 1 - x.value) (by linarith)]
  obtain rfl := eq_of_value_eq hnan (by decide) (by linarith) (hone.trans Binary64.value_one.symm)
  decide +kernel

/-- Two negations of doubles that have one value are the same double. -/
theorem complement_eq_of_value_eq (hx : x.isDegree = true) (hy : y.isDegree = true)
    (h : (Binary64.one - x).value = (Binary64.one - y).value) :
    Binary64.one - x = Binary64.one - y := by
  obtain ⟨hnx, hx₀, -⟩ := Binary64.isDegree_iff.mp (isDegree_complement hx)
  obtain ⟨hny, -, -⟩ := Binary64.isDegree_iff.mp (isDegree_complement hy)
  rcases hx₀.eq_or_lt with hzero | hpos
  · rw [complement_eq_zero hx hzero.symm, complement_eq_zero hy (h ▸ hzero.symm)]
  · exact eq_of_value_eq hnx hny hpos h

theorem value_complement_complement (hx : x.isDegree = true) :
    (Binary64.one - (Binary64.one - x)).value = rounded (1 - rounded (1 - x.value)) := by
  rw [value_complement (isDegree_complement hx), value_complement hx]

/-- **From one half on two negations give back the degree.** -/
theorem complement_complement (hx : x.isDegree = true) (h : 1 / 2 ≤ x.value) :
    Binary64.one - (Binary64.one - x) = x := by
  obtain ⟨hnan, -, hx₁⟩ := Binary64.isDegree_iff.mp hx
  obtain ⟨hnan', -, -⟩ := Binary64.isDegree_iff.mp (isDegree_complement (isDegree_complement hx))
  have hvalue := value_complement_complement hx
  rw [rounded_one_sub_twice (Binary64.isValue_value hnan) h hx₁] at hvalue
  exact eq_of_value_eq hnan' hnan (by linarith) hvalue

/-- **Two negations are off by `2⁻⁵⁴` at most.** -/
theorem abs_complement_complement_sub_le (hx : x.isDegree = true) :
    |(Binary64.one - (Binary64.one - x)).value - x.value| ≤ 1 / 2 ^ 54 := by
  obtain ⟨hnan, hx₀, hx₁⟩ := Binary64.isDegree_iff.mp hx
  rw [value_complement_complement hx]
  exact abs_rounded_one_sub_twice_sub_le (Binary64.isValue_value hnan) hx₀ hx₁

/-- **Three negations are one.** -/
theorem complement_thrice (hx : x.isDegree = true) :
    Binary64.one - (Binary64.one - (Binary64.one - x)) = Binary64.one - x := by
  obtain ⟨hnan, hx₀, hx₁⟩ := Binary64.isDegree_iff.mp hx
  refine complement_eq_of_value_eq (isDegree_complement (isDegree_complement hx)) hx ?_
  rw [value_complement_complement (isDegree_complement hx), value_complement hx,
    rounded_one_sub_thrice (Binary64.isValue_value hnan) hx₀ hx₁]

/-- **Negation reverses the order.** -/
theorem complement_le_complement (hx : x.isDegree = true) (hy : y.isDegree = true)
    (h : x.le y = true) : (Binary64.one - y).le (Binary64.one - x) = true := by
  obtain ⟨hnx, -, -⟩ := Binary64.isDegree_iff.mp hx
  obtain ⟨hny, -, -⟩ := Binary64.isDegree_iff.mp hy
  obtain ⟨hcx, -, -⟩ := Binary64.isDegree_iff.mp (isDegree_complement hx)
  obtain ⟨hcy, -, -⟩ := Binary64.isDegree_iff.mp (isDegree_complement hy)
  rw [Binary64.le_iff_value hnx hny] at h
  rw [Binary64.le_iff_value hcy hcx, value_complement hx, value_complement hy]
  exact Binary64.rounded_mono (by linarith)

/-! ## Stacks of negations -/

theorem isDegree_iterate_complement (hd : d.isDegree = true) (k : ℕ) :
    ((Binary64.one - ·)^[k] d).isDegree = true := by
  induction k with
  | zero => exact hd
  | succ k ih =>
    rw [Function.iterate_succ_apply']
    exact isDegree_complement ih

/-- **A stack of negations is one of one or two**, by its parity. -/
theorem iterate_complement_eq (hd : d.isDegree = true) (k : ℕ) :
    (Binary64.one - ·)^[k + 1] d = (Binary64.one - ·)^[k % 2 + 1] d := by
  induction k using Nat.twoStepInduction with
  | zero => rfl
  | one => rfl
  | more k ih _ =>
    rw [Nat.add_mod_right, ← ih]
    simp only [Function.iterate_succ_apply']
    exact complement_thrice (isDegree_iterate_complement hd k)

/-- The hooks negate the degree of the tree below as often as it is negated. -/
theorem fold_iterate_negate (ho : o ∈ all) (ht : t.fold o = .ok (.float d)) (k : ℕ) :
    (Node.negate^[k] t).fold o = .ok (.float ((Binary64.one - ·)^[k] d)) := by
  induction k with
  | zero => exact ht
  | succ k ih =>
    rw [Function.iterate_succ_apply', Function.iterate_succ_apply', Node.negate, Node.fold, ih]
    exact rawNot_float ho _

/-- The leaves below are those of the tree. -/
theorem uniform_iterate_negate (ht : t.Uniform o) (k : ℕ) : (Node.negate^[k] t).Uniform o := by
  induction k with
  | zero => exact ht
  | succ k ih =>
    rw [Function.iterate_succ_apply']
    exact ih

/-- **Laws of negation.**  Under every set of the catalogue the negation of doubles in `[0, 1]` reverses
their order.  A third negation gives the double that the first has given; the second gives back the
degree itself from one half on, and something within `2⁻⁵³` of it below.  Hence over every tree of
validated leaves a stack of `k + 1` negations evaluates as the one of one or two that has its parity,
to a degree, as the tree itself does. -/
theorem negation_laws (ho : o ∈ all) :
    (∀ x y : Binary64, x.isDegree = true → y.isDegree = true → x.le y = true →
      ∃ m n : Binary64, o.rawNot (.float x) = .ok (.float m) ∧ o.rawNot (.float y) = .ok (.float n) ∧
        n.le m = true) ∧
    (∀ x : Binary64, x.isDegree = true →
      ∃ once twice : Binary64, o.rawNot (.float x) = .ok (.float once) ∧
        o.rawNot (.float once) = .ok (.float twice) ∧ o.rawNot (.float twice) = .ok (.float once) ∧
        (1 / 2 ≤ x.value → twice = x) ∧ |twice.value - x.value| ≤ 1 / 2 ^ 53) ∧
    ∀ (F : OpsetFamily) (t : Node), Node.Built F t → t.opset = o → (∀ m ∈ t.leaves, m.Validated) →
      ∃ d once twice : Binary64, t.evaluate = .ok ⟨.float d, o⟩ ∧
        o.rawNot (.float d) = .ok (.float once) ∧ o.rawNot (.float once) = .ok (.float twice) ∧
        t.negate.evaluate = .ok ⟨.float once, o⟩ ∧ t.negate.negate.evaluate = .ok ⟨.float twice, o⟩ ∧
        ∀ k, (Node.negate^[k + 1] t).evaluate = (Node.negate^[k % 2 + 1] t).evaluate := by
  refine ⟨fun x y hx hy hle => ?_, fun x hx => ?_, ?_⟩
  · exact ⟨_, _, rawNot_float ho x, rawNot_float ho y, complement_le_complement hx hy hle⟩
  · refine ⟨_, _, rawNot_float ho x, rawNot_float ho _, ?_, complement_complement hx, ?_⟩
    · rw [rawNot_float ho, complement_thrice hx]
    · exact (abs_complement_complement_sub_le hx).trans (by norm_num)
  · rintro F t ht rfl hleaves
    obtain ⟨_, hfold, d, rfl, hd⟩ :=
      Node.fold_preserves (preserves_of_mem ho) fun m hm =>
        Membership.validated_iff.mp (hleaves m hm)
    have hstack : ∀ k, (Node.negate^[k] t).evaluate =
        .ok ⟨.float ((Binary64.one - ·)^[k] d), t.opset⟩ := by
      intro k
      rw [Node.evaluate_eq_fold (uniform_iterate_negate ht.uniform.2 k), fold_iterate_negate ho hfold]
      rfl
    refine ⟨d, _, _, hstack 0, rawNot_float ho d, rawNot_float ho _, hstack 1, hstack 2, fun k => ?_⟩
    rw [hstack, hstack, iterate_complement_eq hd]

/-- The laws at `0.1`, which two negations make `0.09999999999999998`, and at `0.9406977951970535`, which
they leave alone. -/
theorem hamacher1_negation_laws_tenth :
    hamacher1 ∈ all ∧ tenth.isDegree = true ∧ offGrid.isDegree = true ∧ tenth.le offGrid = true ∧
    (∃ m n : Binary64, hamacher1.rawNot (.float tenth) = .ok (.float m) ∧
      hamacher1.rawNot (.float offGrid) = .ok (.float n) ∧ n.le m = true) ∧
    (∃ once twice : Binary64, hamacher1.rawNot (.float tenth) = .ok (.float once) ∧
      hamacher1.rawNot (.float once) = .ok (.float twice) ∧
      hamacher1.rawNot (.float twice) = .ok (.float once) ∧
      |twice.value - tenth.value| ≤ 1 / 2 ^ 53) ∧
    (1 / 2 ≤ offGrid.value ∧ ∃ once : Binary64,
      hamacher1.rawNot (.float offGrid) = .ok (.float once) ∧
      hamacher1.rawNot (.float once) = .ok (.float offGrid)) ∧
    (Node.negate^[6 + 1] (.atom ⟨.float tenth, hamacher1⟩)).evaluate =
      (Node.negate^[6 % 2 + 1] (.atom ⟨.float tenth, hamacher1⟩)).evaluate := by
  have hmem : hamacher1 ∈ all := by simp [all]
  have htenth : tenth.isDegree = true := by decide +kernel
  have hoff : offGrid.isDegree = true := by decide +kernel
  have hle : tenth.le offGrid = true := by decide +kernel
  have hhalf : 1 / 2 ≤ offGrid.value := by decide +kernel
  obtain ⟨horder, htwice, htrees⟩ := negation_laws hmem
  obtain ⟨once, twice, h₁, h₂, h₃, -, hnear⟩ := htwice tenth htenth
  obtain ⟨once', twice', h₁', h₂', -, hexact, -⟩ := htwice offGrid hoff
  have hbuilt : Node.Built Node.choosingFamily (.atom ⟨.float tenth, hamacher1⟩) :=
    .atom (List.mem_cons_of_mem _ hmem)
  obtain ⟨_, _, _, -, -, -, -, -, hstack⟩ := htrees Node.choosingFamily _ hbuilt rfl fun m hm => by
    obtain rfl := List.mem_singleton.mp hm
    exact Membership.validated_of_isDegree htenth _
  exact ⟨hmem, htenth, hoff, hle, horder tenth offGrid htenth hoff hle,
    ⟨once, twice, h₁, h₂, h₃, hnear⟩, ⟨hhalf, once', h₁', hexact hhalf ▸ h₂'⟩, hstack 6⟩

end Catalogue

end FuzzyLogic
