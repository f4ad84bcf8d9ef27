import FuzzyLogic.Proofs.Expr.OneOpset

/-!
# Proofs/Expr/Rebuilding — which trees can be built

A tree can be built when the combinators, called from its leaves up, all accept their operands.
`Node.rebuild` calls them: it gives the tree back, or the fault of the first refusal.

Only conjunction and disjunction refuse, and all they look at is the operation sets of their
operands.  `Node.check` is what is left of the calls then (`rebuild_eq`), so that whatever keeps the
operation sets of all subtrees keeps what can be built.  The trees that can be built from leaves of
a family are the built ones (`built_iff`).
-/

namespace FuzzyLogic

namespace Node

variable {F : OpsetFamily} {x y z : Node} {f : Fault}

/-- The tree made again by the combinators, the left operand before the right one. -/
def rebuild : Node → Except Fault Node
  | atom value => .ok (atom value)
  | labeled value label => .ok (labeled value label)
  | not child => do return (← child.rebuild).negate
  | and left right => do
    let x ← left.rebuild
    let y ← right.rebuild
    x.conjoin y
  | or left right => do
    let x ← left.rebuild
    let y ← right.rebuild
    x.disjoin y
  | alternative side branch => do return alternative side (← branch.rebuild)

/-- What the combinators check of a tree. -/
def check : Node → Except Fault Unit
  | atom _ | labeled _ _ => .ok ()
  | not child => child.check
  | and left right => do
    left.check
    right.check
    checkSame "And" left.opset right.opset
  | or left right => do
    left.check
    right.check
    checkSame "Or" left.opset right.opset
  | alternative _ branch => branch.check

/-- Conjunction comes to its check. -/
theorem conjoin_eq_check (x y : Node) :
    x.conjoin y = (checkSame "And" x.opset y.opset).map fun _ => .and x y := by
  rw [Node.conjoin]
  cases checkSame "And" x.opset y.opset <;> rfl

/-- Disjunction comes to its check. -/
theorem disjoin_eq_check (x y : Node) :
    x.disjoin y = (checkSame "Or" x.opset y.opset).map fun _ => .or x y := by
  rw [Node.disjoin]
  cases checkSame "Or" x.opset y.opset <;> rfl

/-- Joining what is checked comes to both checks and that of the join. -/
theorem join_checked {join : Node → Node → Except Fault Node} {r s t : Except Fault Unit}
    (h : join x y = t.map fun _ => z) :
    (do
      let a ← r.map fun _ => x
      let b ← s.map fun _ => y
      join a b) = (do r; s; t).map fun _ => z := by
  cases r with
  | error f => rfl
  | ok _ =>
    cases s with
    | error f => rfl
    | ok _ => exact h

/-- **Building a tree again comes to its checks.** -/
theorem rebuild_eq (x : Node) : x.rebuild = x.check.map fun _ => x := by
  induction x with
  | atom | labeled => rfl
  | not x ih =>
    rw [rebuild, check, ih]
    cases x.check <;> rfl
  | and x y ihx ihy =>
    rw [rebuild, check, ihx, ihy]
    exact join_checked (conjoin_eq_check x y)
  | or x y ihx ihy =>
    rw [rebuild, check, ihx, ihy]
    exact join_checked (disjoin_eq_check x y)
  | alternative side x ih =>
    rw [rebuild, check, ih]
    cases x.check <;> rfl

theorem rebuild_eq_ok_iff : x.rebuild = .ok x ↔ x.check = .ok () := by
  rw [rebuild_eq]
  cases x.check <;> simp [Except.map]

theorem rebuild_eq_error_iff : x.rebuild = .error f ↔ x.check = .error f := by
  rw [rebuild_eq, Outcome.map_eq_error]

theorem checkSame_eq_ok_iff {node : String} {o p : Opset} :
    checkSame node o p = .ok () ↔ o.same p = true := by
  unfold checkSame
  split <;> simp_all

/-- Checks in turn pass when each of them does. -/
theorem checks_eq_ok_iff {r s t : Except Fault Unit} :
    (do r; s; t) = .ok () ↔ r = .ok () ∧ s = .ok () ∧ t = .ok () := by
  cases r <;> cases s <;> simp [bind, Except.bind]

theorem check_and_eq_ok_iff :
    (and x y).check = .ok () ↔
      x.check = .ok () ∧ y.check = .ok () ∧ x.opset.same y.opset = true := by
  rw [check, checks_eq_ok_iff, checkSame_eq_ok_iff]

theorem check_or_eq_ok_iff :
    (or x y).check = .ok () ↔
      x.check = .ok () ∧ y.check = .ok () ∧ x.opset.same y.opset = true := by
  rw [check, checks_eq_ok_iff, checkSame_eq_ok_iff]

/-- One operation set at all leaves passes the checks. -/
theorem Uniform.check {o : Opset} (h : x.Uniform o) : x.check = .ok () := by
  induction x with
  | atom | labeled => rfl
  | not x ih => exact ih h
  | and x y ihx ihy =>
    obtain ⟨hx, hy⟩ := uniform_and.mp h
    exact check_and_eq_ok_iff.mpr
      ⟨ihx hx, ihy hy, by rw [hx.opset_eq, hy.opset_eq, Opset.same_self]⟩
  | or x y ihx ihy =>
    obtain ⟨hx, hy⟩ := uniform_or.mp h
    exact check_or_eq_ok_iff.mpr
      ⟨ihx hx, ihy hy, by rw [hx.opset_eq, hy.opset_eq, Opset.same_self]⟩
  | alternative side x ih => exact ih h

/-- What is built passes its checks. -/
theorem Built.check (h : Built F x) : x.check = .ok () := h.uniform.2.check

/-- What passes its checks is built of its leaves. -/
theorem built_of_check (h : x.check = .ok ()) (hx : ∀ m ∈ x.leaves, F.mem m.opset) : Built F x := by
  induction x with
  | atom m => exact .atom (hx m (List.mem_singleton_self m))
  | labeled m label => exact .labeled label (hx m (List.mem_singleton_self m))
  | not x ih => exact .negate (ih h hx)
  | and x y ihx ihy =>
    obtain ⟨hl, hr⟩ := List.forall_mem_append.mp hx
    obtain ⟨hcx, hcy, hsame⟩ := check_and_eq_ok_iff.mp h
    exact .conjoin (ihx hcx hl) (ihy hcy hr) (conjoin_eq_ok_iff.mpr ⟨hsame, rfl⟩)
  | or x y ihx ihy =>
    obtain ⟨hl, hr⟩ := List.forall_mem_append.mp hx
    obtain ⟨hcx, hcy, hsame⟩ := check_or_eq_ok_iff.mp h
    exact .disjoin (ihx hcx hl) (ihy hcy hr) (disjoin_eq_ok_iff.mpr ⟨hsame, rfl⟩)
  | alternative side x ih => exact .alternative side (ih h hx)

/-- **The built trees are those that can be built of leaves of the family.** -/
theorem built_iff : Built F x ↔ x.rebuild = .ok x ∧ ∀ m ∈ x.leaves, F.mem m.opset := by
  rw [rebuild_eq_ok_iff]
  constructor
  · intro h
    obtain ⟨hmem, hu⟩ := h.uniform
    exact ⟨h.check, fun m hm => hu m hm ▸ hmem⟩
  · rintro ⟨hcheck, hx⟩
    exact built_of_check hcheck hx

/-- Trees with the same checks can be built alike. -/
theorem rebuild_alike (h : y.check = x.check) :
    (y.rebuild = .ok y ↔ x.rebuild = .ok x) ∧ ∀ f, y.rebuild = .error f ↔ x.rebuild = .error f := by
  simp only [rebuild_eq_ok_iff, rebuild_eq_error_iff, h, implies_true, and_self]

end Node

end FuzzyLogic
