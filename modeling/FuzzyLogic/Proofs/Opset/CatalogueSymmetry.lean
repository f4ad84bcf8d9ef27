import FuzzyLogic.Proofs.Expr.Rebuilding
import FuzzyLogic.Proofs.Opset.CatalogueFormula

/-!
# Proofs/Opset/CatalogueSymmetry — the order of operands

The published formulas are symmetric in their operands, and nearly all of them stay so when every
operation is rounded: sums and products are rounded alike in both orders.  The one exception is the
conjunction with parameter `2`, whose denominator `((2 - a) - b) + ab` takes the operands off one
after the other and rounds in between.  There the two orders differ by a few roundings at most
(`hamacher2_near`).

What an operation does not see, trees do not see either: wherever operands are exchanged under
operations that commute (`Exchanged`), the degree is the same (`fold_exchanged`).
-/

namespace FuzzyLogic

/-! ## Exchanging operands in trees -/

namespace Node

/-- Trees that differ in the order of the operands, at any nodes of some operations. -/
inductive Exchanged (P : Connective → Prop) : Node → Node → Prop
  | atom (m : Membership) : Exchanged P (.atom m) (.atom m)
  | labeled (m : Membership) (l : Label) : Exchanged P (.labeled m l) (.labeled m l)
  | not {x y : Node} : Exchanged P x y → Exchanged P (.not x) (.not y)
  | keep (c : Connective) {x x' y y' : Node} : Exchanged P x x' → Exchanged P y y' →
      Exchanged P (c.node x y) (c.node x' y')
  | exchange (c : Connective) {x x' y y' : Node} : P c → Exchanged P x x' → Exchanged P y y' →
      Exchanged P (c.node x y) (c.node y' x')
  | alternative (s : Side) {x y : Node} : Exchanged P x y →
      Exchanged P (.alternative s x) (.alternative s y)

variable {P : Connective → Prop} {F : OpsetFamily} {o : Opset} {x y : Node}

/-- Exchanging operands keeps the leaves, in another order. -/
theorem Exchanged.leaves_perm (h : Exchanged P x y) : y.leaves.Perm x.leaves := by
  induction h with
  | atom m => exact .refl _
  | labeled m l => exact .refl _
  | not _ ih => exact ih
  | keep c _ _ ihx ihy =>
    rw [leaves_node, leaves_node]
    exact ihx.append ihy
  | exchange _ _ _ _ ihx ihy =>
    rw [leaves_node, leaves_node]
    exact (ihy.append ihx).trans List.perm_append_comm
  | alternative s _ ih => exact ih

/-- Exchanging operands keeps a tree of one operation set. -/
theorem Exchanged.uniform (h : Exchanged P x y) (hx : x.Uniform o) : y.Uniform o :=
  fun m hm => hx m (h.leaves_perm.mem_iff.mp hm)

end Node

namespace Catalogue

open Binary64 (rounded)

variable {o : Opset} {p q : ℚ}

/-! ## Symmetric formulas -/

/-- The formula does not depend on the order of the operands. -/
def Symmetric (f : ℚ → ℚ → ℚ) : Prop := ∀ p q, f p q = f q p

theorem symmetric_yager1 (c : Connective) : Symmetric (Yager1.formula c) := by
  intro p q
  cases c <;> simp only [Yager1.formula, add_comm p q]

theorem symmetric_yagerInf (c : Connective) : Symmetric (YagerInf.formula c) := by
  intro p q
  cases c with
  | disjunction => exact max_comm p q
  | conjunction => exact min_comm p q

theorem symmetric_hamacher0 (c : Connective) : Symmetric (Hamacher0.formula c) := by
  intro p q
  cases c <;> simp only [Hamacher0.formula, add_comm p q, mul_comm p q]

theorem symmetric_hamacher1 (c : Connective) : Symmetric (Hamacher1.formula c) := by
  intro p q
  cases c <;> simp only [Hamacher1.formula, add_comm p q, mul_comm p q]

theorem symmetric_hamacher2 : Symmetric (Hamacher2.formula .disjunction) := by
  intro p q
  simp only [Hamacher2.formula, add_comm p q, mul_comm p q]

/-! ## The conjunction with parameter two -/

/-- The denominator `((p' - q) + pq` with `p' = 2 - p`, every operation rounded. -/
def denominator (p q : ℚ) : ℚ := rounded (rounded (rounded (2 - p) - q) + rounded (p * q))

theorem conjunction_eq_quotient (p q : ℚ) : Hamacher2.formula .conjunction p q =
    unit (rounded (rounded (p * q) / denominator p q)) := rfl

section Operand

variable (hp₀ : 0 ≤ p) (hp₁ : p ≤ 1)
include hp₀ hp₁

theorem abs_rounded_two_sub_le : |rounded (2 - p) - (2 - p)| ≤ 1 / 2 ^ 53 :=
  Binary64.abs_rounded_sub_le_of_le_two (by linarith) (by linarith)

theorem rounded_two_sub_mem : 1 ≤ rounded (2 - p) ∧ rounded (2 - p) ≤ 2 :=
  ⟨Binary64.isValue_one.le_rounded (by linarith), Binary64.isValue_two.rounded_le (by linarith)⟩

end Operand

section Denominator

variable (hp₀ : 0 ≤ p) (hp₁ : p ≤ 1) (hq₀ : 0 ≤ q) (hq₁ : q ≤ 1)
include hp₀ hp₁ hq₀ hq₁

theorem rounded_product_mem : 0 ≤ rounded (p * q) ∧ rounded (p * q) ≤ 1 :=
  ⟨Binary64.rounded_nonneg (mul_nonneg hp₀ hq₀), Binary64.rounded_le_one (mul_le_one₀ hp₁ hq₀ hq₁)⟩

/-- The denominator is off by four roundings at most, the product apart. -/
theorem abs_denominator_sub_le :
    |denominator p q - (2 - p - q + rounded (p * q))| ≤ 4 / 2 ^ 53 := by
  obtain ⟨hr₀, hr₁⟩ := rounded_product_mem hp₀ hp₁ hq₀ hq₁
  have h₁ := abs_rounded_two_sub_le hp₀ hp₁
  obtain ⟨hone, htwo⟩ := rounded_two_sub_mem hp₀ hp₁
  have h₂ := Binary64.abs_rounded_sub_le_of_le_two (q := rounded (2 - p) - q) (by linarith)
    (by linarith)
  have hsub₀ : 0 ≤ rounded (rounded (2 - p) - q) := Binary64.rounded_nonneg (by linarith)
  have hsub₂ : rounded (rounded (2 - p) - q) ≤ 2 := Binary64.isValue_two.rounded_le (by linarith)
  have h₃ := Binary64.abs_rounded_sub_le (j := 51)
    (q := rounded (rounded (2 - p) - q) + rounded (p * q)) le_rfl (by norm_num) (by linarith)
    (by norm_num; linarith)
  rw [abs_sub_le_iff] at h₁ h₂ h₃
  rw [denominator, abs_sub_le_iff]
  norm_num at h₁ h₂ h₃ ⊢
  constructor <;> linarith

/-- The denominator is not much less than one, which is what the exact one is at least. -/
theorem le_denominator : 1 - 5 / 2 ^ 53 ≤ denominator p q := by
  have herror := (abs_sub_le_iff.mp (abs_denominator_sub_le hp₀ hp₁ hq₀ hq₁)).2
  have hproduct := (abs_sub_le_iff.mp (Binary64.abs_rounded_sub_le_of_le_one
    (mul_nonneg hp₀ hq₀) (mul_le_one₀ hp₁ hq₀ hq₁))).2
  have hexact : 0 ≤ (1 - p) * (1 - q) := mul_nonneg (by linarith) (by linarith)
  norm_num at herror hproduct ⊢
  linarith

/-- The quotient is off by one rounding at most. -/
theorem abs_rounded_quotient_sub_le :
    |rounded (rounded (p * q) / denominator p q) - rounded (p * q) / denominator p q| ≤
      1 / 2 ^ 53 := by
  obtain ⟨hr₀, hr₁⟩ := rounded_product_mem hp₀ hp₁ hq₀ hq₁
  have hden := le_denominator hp₀ hp₁ hq₀ hq₁
  norm_num at hden
  have hpos : 0 < denominator p q := by linarith
  refine Binary64.abs_rounded_sub_le_of_le_two (div_nonneg hr₀ hpos.le) ?_
  rw [div_le_iff₀ hpos]
  linarith

end Denominator

/-- Quotients of a number up to one by nearby denominators that are nearly one. -/
theorem abs_div_sub_div_le {r d d' : ℚ} (hr₀ : 0 ≤ r) (hr₁ : r ≤ 1) (hd : 1 - 5 / 2 ^ 53 ≤ d)
    (hd' : 1 - 5 / 2 ^ 53 ≤ d') (h : |d - d'| ≤ 8 / 2 ^ 53) : |r / d - r / d'| ≤ 9 / 2 ^ 53 := by
  have hpos : 0 < d := lt_of_lt_of_le (by norm_num) hd
  have hpos' : 0 < d' := lt_of_lt_of_le (by norm_num) hd'
  have hprod : (1 - 5 / 2 ^ 53) * (1 - 5 / 2 ^ 53) ≤ d * d' :=
    mul_le_mul hd hd' (by norm_num) hpos.le
  have hcross : r / d - r / d' = r * (d' - d) / (d * d') := by
    field_simp
  rw [hcross, abs_div, abs_of_pos (mul_pos hpos hpos'), div_le_iff₀ (mul_pos hpos hpos'), abs_mul,
    abs_of_nonneg hr₀, abs_sub_comm]
  calc r * |d - d'| ≤ 1 * (8 / 2 ^ 53) := mul_le_mul hr₁ h (abs_nonneg _) zero_le_one
    _ ≤ 9 / 2 ^ 53 * (d * d') := by
      norm_num at hprod ⊢
      linarith

/-- **With parameter two the order of the operands makes a few roundings at most.** -/
theorem hamacher2_near (hp₀ : 0 ≤ p) (hp₁ : p ≤ 1) (hq₀ : 0 ≤ q) (hq₁ : q ≤ 1) :
    |Hamacher2.formula .conjunction p q - Hamacher2.formula .conjunction q p| ≤ 1 / 2 ^ 49 := by
  obtain ⟨hr₀, hr₁⟩ := rounded_product_mem hp₀ hp₁ hq₀ hq₁
  have hd := abs_sub_le_iff.mp (abs_denominator_sub_le hp₀ hp₁ hq₀ hq₁)
  have hd' := abs_sub_le_iff.mp (abs_denominator_sub_le hq₀ hq₁ hp₀ hp₁)
  have hq := abs_sub_le_iff.mp (abs_rounded_quotient_sub_le hp₀ hp₁ hq₀ hq₁)
  have hq' := abs_sub_le_iff.mp (abs_rounded_quotient_sub_le hq₀ hq₁ hp₀ hp₁)
  rw [mul_comm q p] at hd' hq'
  have hclose : |denominator p q - denominator q p| ≤ 8 / 2 ^ 53 :=
    abs_sub_le_iff.mpr ⟨by linarith [hd.1, hd'.2], by linarith [hd.2, hd'.1]⟩
  have hquot := abs_sub_le_iff.mp (abs_div_sub_div_le hr₀ hr₁ (le_denominator hp₀ hp₁ hq₀ hq₁)
    (le_denominator hq₀ hq₁ hp₀ hp₁) hclose)
  have hunit := abs_unit_sub_le (rounded (rounded (p * q) / denominator p q))
    (rounded (rounded (p * q) / denominator q p))
  rw [conjunction_eq_quotient, conjunction_eq_quotient, mul_comm q p]
  refine hunit.trans (abs_sub_le_iff.mpr ?_)
  norm_num at hq hq' hquot ⊢
  constructor <;> linarith [hq.1, hq.2, hq'.1, hq'.2, hquot.1, hquot.2]

/-! ## The catalogue as a whole -/

/-- The operation does not depend on the order of its operands: any of the catalogue but the
conjunction with parameter `2`. -/
def Commutes (o : Opset) (c : Connective) : Prop := o = hamacher2 → c = .disjunction

/-- On `[0, 1]` the order of the operands makes a few roundings at most. -/
def NearlySymmetric (f : ℚ → ℚ → ℚ) : Prop :=
  ∀ {p q}, 0 ≤ p → p ≤ 1 → 0 ≤ q → q ≤ 1 → |f p q - f q p| ≤ 1 / 2 ^ 49

theorem Symmetric.nearly {f : ℚ → ℚ → ℚ} (h : Symmetric f) : NearlySymmetric f := by
  intro p q _ _ _ _
  rw [h p q, sub_self, abs_zero]
  norm_num

/-- Every set of the catalogue computes formulas, symmetric ones for the operations that commute
and nearly symmetric ones for all. -/
theorem exists_formula (ho : o ∈ all) : ∃ formula, Computes o formula ∧
    ∀ c, (Commutes o c → Symmetric (formula c)) ∧ NearlySymmetric (formula c) := by
  rcases mem_all.mp ho with rfl | rfl | rfl | rfl | rfl
  · exact ⟨_, computes_yager1, fun c => ⟨fun _ => symmetric_yager1 c, (symmetric_yager1 c).nearly⟩⟩
  · exact ⟨_, computes_yagerInf,
      fun c => ⟨fun _ => symmetric_yagerInf c, (symmetric_yagerInf c).nearly⟩⟩
  · exact ⟨_, computes_hamacher0,
      fun c => ⟨fun _ => symmetric_hamacher0 c, (symmetric_hamacher0 c).nearly⟩⟩
  · exact ⟨_, computes_hamacher1,
      fun c => ⟨fun _ => symmetric_hamacher1 c, (symmetric_hamacher1 c).nearly⟩⟩
  · refine ⟨_, computes_hamacher2, fun c => ?_⟩
    cases c with
    | disjunction => exact ⟨fun _ => symmetric_hamacher2, symmetric_hamacher2.nearly⟩
    | conjunction =>
      refine ⟨fun h => ?_, hamacher2_near⟩
      cases h rfl

section Folding

variable {formula : Connective → ℚ → ℚ → ℚ} {x y : Node}

theorem gives_fold_not (ho : o ∈ all) (hx : Gives (x.fold o) p) :
    Gives (x.not.fold o) (rounded (1 - p)) := by
  obtain ⟨a, hfold, ha, rfl⟩ := hx
  rw [Node.fold, hfold]
  exact gives_negation ho ha

theorem gives_fold_node (hcomputes : Computes o formula) (c : Connective)
    (hx : Gives (x.fold o) p) (hy : Gives (y.fold o) q) :
    Gives ((c.node x y).fold o) (formula c p q) := by
  obtain ⟨a, hfold, ha, rfl⟩ := hx
  obtain ⟨b, hfold', hb, rfl⟩ := hy
  rw [Node.fold_node, hfold, hfold']
  exact hcomputes c ha hb

/-- Trees that differ in the order of operands, under operations whose formulas are symmetric,
evaluate to degrees of one value. -/
theorem fold_exchanged {P : Connective → Prop} (ho : o ∈ all) (hcomputes : Computes o formula)
    (hsymm : ∀ c, P c → Symmetric (formula c)) (h : Node.Exchanged P x y)
    (hleaves : ∀ m ∈ x.leaves, IsDoubleDegree m.raw) :
    ∃ q, Gives (x.fold o) q ∧ Gives (y.fold o) q := by
  induction h with
  | atom m | labeled m _ =>
    obtain ⟨d, hd, hdeg⟩ := hleaves m (List.mem_singleton_self m)
    have hgives : Gives (.ok m.raw) d.value := ⟨d, congrArg Except.ok hd, hdeg, rfl⟩
    exact ⟨_, hgives, hgives⟩
  | not _ ih =>
    obtain ⟨_, hx, hy⟩ := ih hleaves
    exact ⟨_, gives_fold_not ho hx, gives_fold_not ho hy⟩
  | keep c _ _ ihx ihy =>
    rw [Node.leaves_node, List.forall_mem_append] at hleaves
    obtain ⟨_, hx, hx'⟩ := ihx hleaves.1
    obtain ⟨_, hy, hy'⟩ := ihy hleaves.2
    exact ⟨_, gives_fold_node hcomputes c hx hy, gives_fold_node hcomputes c hx' hy'⟩
  | exchange c hc _ _ ihx ihy =>
    rw [Node.leaves_node, List.forall_mem_append] at hleaves
    obtain ⟨p, hx, hx'⟩ := ihx hleaves.1
    obtain ⟨q, hy, hy'⟩ := ihy hleaves.2
    have hexchanged := gives_fold_node hcomputes c hy' hx'
    rw [hsymm c hc q p] at hexchanged
    exact ⟨_, gives_fold_node hcomputes c hx hy, hexchanged⟩
  | alternative s _ ih => exact ih hleaves

end Folding

/-- **The order of the operands does not matter.**  On doubles in `[0, 1]` the hooks of every set of
the catalogue that join degrees give degrees in both orders, equal ones except for the conjunction
with parameter `2`, where they differ by `2⁻⁴⁹` at most.  Trees that differ in the order of operands
of all other operations evaluate to equal degrees. -/
theorem order_of_operands (ho : o ∈ all) :
    (∀ (c : Connective) (a b : Binary64), a.isDegree = true → b.isDegree = true →
      ∃ x y : Binary64, c.hook o (.float a) (.float b) = .ok (.float x) ∧
        c.hook o (.float b) (.float a) = .ok (.float y) ∧
        (Commutes o c → x.equals y = true) ∧ |x.value - y.value| ≤ 1 / 2 ^ 49) ∧
    ∀ (F : OpsetFamily) (x y : Node), Node.Built F x → x.opset = o →
      (∀ m ∈ x.leaves, m.Validated) → Node.Exchanged (Commutes o) x y →
      Node.Built F y ∧ ∃ d e : Binary64, x.evaluate = .ok ⟨.float d, o⟩ ∧
        y.evaluate = .ok ⟨.float e, o⟩ ∧ d.equals e = true := by
  obtain ⟨formula, hcomputes, hformula⟩ := exists_formula ho
  refine ⟨fun c a b ha hb => ?_, ?_⟩
  · obtain ⟨x, hx, hxdeg, hxvalue⟩ := hcomputes c ha hb
    obtain ⟨y, hy, hydeg, hyvalue⟩ := hcomputes c hb ha
    obtain ⟨-, ha₀, ha₁⟩ := Binary64.isDegree_iff.mp ha
    obtain ⟨-, hb₀, hb₁⟩ := Binary64.isDegree_iff.mp hb
    obtain ⟨hnx, -, -⟩ := Binary64.isDegree_iff.mp hxdeg
    obtain ⟨hny, -, -⟩ := Binary64.isDegree_iff.mp hydeg
    refine ⟨x, y, hx, hy, fun hc => ?_, ?_⟩
    · rw [Binary64.equals_iff_value hnx hny, hxvalue, hyvalue]
      exact (hformula c).1 hc _ _
    · rw [hxvalue, hyvalue]
      exact (hformula c).2 ha₀ ha₁ hb₀ hb₁
  · rintro F x y hx rfl hleaves hexchanged
    obtain ⟨hmem, huniform⟩ := hx.uniform
    have huniform' := hexchanged.uniform huniform
    obtain ⟨_, ⟨d, hd, hddeg, rfl⟩, e, he, hedeg, hvalue⟩ := fold_exchanged ho hcomputes
      (fun c => (hformula c).1) hexchanged fun m hm =>
        Membership.validated_iff.mp (hleaves m hm)
    obtain ⟨hnd, -, -⟩ := Binary64.isDegree_iff.mp hddeg
    obtain ⟨hne, -, -⟩ := Binary64.isDegree_iff.mp hedeg
    refine ⟨Node.built_of_check huniform'.check fun m hm => ?_, d, e, ?_, ?_, ?_⟩
    · rwa [huniform' m hm]
    · rw [Node.evaluate_eq_fold huniform, hd]
      rfl
    · rw [Node.evaluate_eq_fold huniform', he]
      rfl
    · exact (Binary64.equals_iff_value hnd hne).mpr hvalue.symm

/-- The guarded set at `1` and a double off its grid, and a tree with its operands exchanged. -/
theorem hamacher0_order_of_operands :
    hamacher0 ∈ all ∧ offGrid.isDegree = true ∧
    (∃ x y : Binary64, hamacher0.rawOr (.float .one) (.float offGrid) = .ok (.float x) ∧
      hamacher0.rawOr (.float offGrid) (.float .one) = .ok (.float y) ∧ x.equals y = true) ∧
    ∃ d e : Binary64, Node.evaluate (.and (.not (.atom ⟨.float .one, hamacher0⟩))
      (.atom ⟨.float offGrid, hamacher0⟩)) = .ok ⟨.float d, hamacher0⟩ ∧
      Node.evaluate (.and (.atom ⟨.float offGrid, hamacher0⟩)
        (.not (.atom ⟨.float .one, hamacher0⟩))) = .ok ⟨.float e, hamacher0⟩ ∧
      d.equals e = true := by
  have hmem : hamacher0 ∈ all := by simp [all]
  have hone : Binary64.one.isDegree = true := by decide +kernel
  have hoff : offGrid.isDegree = true := by decide +kernel
  have hcommutes : ∀ c, Commutes hamacher0 c := fun c h =>
    absurd (congrArg Opset.id h) (by decide)
  obtain ⟨hhooks, htrees⟩ := order_of_operands hmem
  obtain ⟨x, y, hx, hy, hequal, -⟩ := hhooks .disjunction .one offGrid hone hoff
  have hleft : Node.Built Node.choosingFamily (.atom ⟨.float .one, hamacher0⟩) :=
    .atom (List.mem_cons_of_mem _ hmem)
  have hright : Node.Built Node.choosingFamily (.atom ⟨.float offGrid, hamacher0⟩) :=
    .atom (List.mem_cons_of_mem _ hmem)
  refine ⟨hmem, hoff, ⟨x, y, hx, hy, hequal (hcommutes _)⟩, ?_⟩
  refine (htrees Node.choosingFamily _ _ (.conjoin (.negate hleft) hright rfl) rfl (fun m hm => ?_)
    (.exchange .conjunction (hcommutes _) (.not (.atom _)) (.atom _))).2
  simp only [Node.negate, Node.leaves, List.mem_append, List.mem_singleton] at hm
  rcases hm with rfl | rfl
  · exact Membership.validated_of_isDegree hone _
  · exact Membership.validated_of_isDegree hoff _

/-- The double `0.1`. -/
def tenth : Binary64 := .signed false ⟨4591870180066957722, by decide⟩

/-- **With parameter two the conjunction does not commute**: that of `0.1` and `1` is
`0.10000000000000002`, and that of `1` and `0.1` is `0.1`. -/
theorem hamacher2_order_matters :
    hamacher2 ∈ all ∧ tenth.isDegree = true ∧ Binary64.one.isDegree = true ∧
    hamacher2.rawAnd (.float tenth) (.float .one) =
      .ok (.float (.signed false ⟨4591870180066957723, by decide⟩)) ∧
    hamacher2.rawAnd (.float .one) (.float tenth) = .ok (.float tenth) ∧
    (Number.float (.signed false ⟨4591870180066957723, by decide⟩)).equals (.float tenth) =
      false := by
  refine ⟨by simp [all], ?_, ?_, ?_, ?_, ?_⟩ <;> decide +kernel

end Catalogue

end FuzzyLogic
