import FuzzyLogic.Proofs.Expr.Rebuilding
import FuzzyLogic.Proofs.Expr.Rereading

/-!
# Proofs/Expr/Wrapping — alternatives are transparent

An alternative stands for its branch.  `Wrapped x y` says that `y` is `x` with any of its subtrees
wrapped in alternatives, anywhere and any number of times; nothing that is asked of a tree tells the
two apart (`wrapping_changes_nothing`).

The alternatives of both trees are taken away at once: what is left is one tree
(`Wrapped.resolve_eq`), and each question has the same answer for a tree and for what `resolve` leaves
of it.
-/

namespace FuzzyLogic

namespace Node

variable {x y : Node}

/-- The second tree is the first one with subtrees wrapped in alternatives. -/
inductive Wrapped : Node → Node → Prop
  | atom (value : Membership) : Wrapped (.atom value) (.atom value)
  | labeled (value : Membership) (label : Label) : Wrapped (.labeled value label) (.labeled value label)
  | not {x x' : Node} : Wrapped x x' → Wrapped (.not x) (.not x')
  | and {x x' y y' : Node} : Wrapped x x' → Wrapped y y' → Wrapped (.and x y) (.and x' y')
  | or {x x' y y' : Node} : Wrapped x x' → Wrapped y y' → Wrapped (.or x y) (.or x' y')
  | alternative {x x' : Node} (side : Side) : Wrapped x x' →
      Wrapped (.alternative side x) (.alternative side x')
  | wrap {x x' : Node} (side : Side) : Wrapped x x' → Wrapped x (.alternative side x')

/-! ## What does not see alternatives -/

theorem check_resolve (x : Node) : x.resolve.check = x.check := by
  induction x with
  | atom | labeled => rfl
  | not x ih => exact ih
  | and x y ihx ihy | or x y ihx ihy =>
    rw [resolve, check, check, ihx, ihy, opset_resolve, opset_resolve]
  | alternative side x ih => exact ih

theorem leaves_resolve (x : Node) : x.resolve.leaves = x.leaves := by
  induction x with
  | atom | labeled => rfl
  | not x ih => exact ih
  | and x y ihx ihy | or x y ihx ihy => rw [resolve, leaves, leaves, ihx, ihy]
  | alternative side x ih => exact ih

theorem footprint_resolve (x : Node) : x.resolve.footprint = x.footprint := by
  induction x with
  | atom | labeled => rfl
  | not x ih => exact ih
  | and x y ihx ihy | or x y ihx ihy => rw [resolve, footprint, footprint, ihx, ihy]
  | alternative side x ih => exact ih

/-- **Without their alternatives both trees are one.** -/
theorem Wrapped.resolve_eq (h : Wrapped x y) : y.resolve = x.resolve := by
  induction h with
  | atom | labeled => rfl
  | not _ ih => rw [resolve, resolve, ih]
  | and _ _ ihx ihy | or _ _ ihx ihy => rw [resolve, resolve, ihx, ihy]
  | alternative side _ ih => exact ih
  | wrap side _ ih => exact ih

/-- What is asked of a tree and does not see alternatives has one answer for both. -/
theorem Wrapped.eq_of_resolve {α : Type} {ask : Node → α} (h : Wrapped x y)
    (hask : ∀ x, ask x.resolve = ask x) : ask y = ask x := by
  rw [← hask y, h.resolve_eq, hask x]

/-- **Alternatives are transparent.**  Of a tree, and of what wrapping any of its subtrees in
alternatives makes of it:

* one can be built exactly when the other can, of leaves of whatever family, and is refused with the
  same fault when it cannot;
* they have one operation set, one evaluation, be it a degree or a fault, one text and one
  footprint. -/
theorem wrapping_changes_nothing (h : Wrapped x y) :
    ((y.rebuild = .ok y ↔ x.rebuild = .ok x) ∧
      (∀ f, y.rebuild = .error f ↔ x.rebuild = .error f) ∧
      ∀ F : OpsetFamily, Built F y ↔ Built F x) ∧
    y.opset = x.opset ∧ y.evaluate = x.evaluate ∧ y.render = x.render ∧
    y.footprint = x.footprint := by
  obtain ⟨hok, herror⟩ := rebuild_alike (h.eq_of_resolve check_resolve)
  have hleaves : y.leaves = x.leaves := h.eq_of_resolve leaves_resolve
  have hbuilt : ∀ F : OpsetFamily, Built F y ↔ Built F x := fun F => by
    rw [built_iff, built_iff, hok, hleaves]
  exact ⟨⟨hok, herror, hbuilt⟩, h.eq_of_resolve opset_resolve, h.eq_of_resolve evaluate_resolve,
    h.eq_of_resolve render_resolve, h.eq_of_resolve footprint_resolve⟩

/-- A conjunction of two operation sets, its right operand wrapped twice. -/
def wrappedMismatch : Node :=
  .and (.atom ⟨.float .one, Catalogue.yager1⟩)
    (.alternative .left (.alternative .right (.atom ⟨.float .one, Catalogue.hamacher1⟩)))

/-- A tree wrapped as a whole, at an alternative and below a negation. -/
def wrappedChoosingTree : Node :=
  .alternative .right
    (.or (.alternative .right (.alternative .left (.labeled ⟨.float .one, choosing⟩ (.text "a"))))
      (.not (.alternative .left (.atom ⟨.float .zero, choosing⟩))))

/-- Wrapping hides no mismatch, and it makes none. -/
theorem wrapped_trees_as_unwrapped :
    Wrapped (.and (.atom ⟨.float .one, Catalogue.yager1⟩) (.atom ⟨.float .one, Catalogue.hamacher1⟩))
      wrappedMismatch ∧
    wrappedMismatch.rebuild = .error (.opsetMismatch "And" "Yager1" "Hamacher1") ∧
    Wrapped choosingTree wrappedChoosingTree ∧ Built choosingFamily wrappedChoosingTree ∧
    wrappedChoosingTree.render = "(a | !0)" := by
  have hmismatch : Wrapped (.and (.atom ⟨.float .one, Catalogue.yager1⟩)
      (.atom ⟨.float .one, Catalogue.hamacher1⟩)) wrappedMismatch :=
    .and (.atom _) (.wrap .left (.wrap .right (.atom _)))
  have hwrapped : Wrapped choosingTree wrappedChoosingTree :=
    .wrap .right (.or (.wrap .right (.alternative .left (.labeled _ _)))
      (.not (.wrap .left (.atom _))))
  have htext : choosingTree.render = "(a | !0)" := by decide +kernel
  obtain ⟨⟨-, -, hbuilt⟩, -, -, hrender, -⟩ := wrapping_changes_nothing hwrapped
  refine ⟨hmismatch, ((wrapping_changes_nothing hmismatch).1.2.1 _).mpr rfl, hwrapped,
    (hbuilt choosingFamily).mpr built_choosingTree, hrender.trans htext⟩

end Node

end FuzzyLogic
