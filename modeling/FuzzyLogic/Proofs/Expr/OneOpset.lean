import FuzzyLogic.Expr.Basic
import FuzzyLogic.Opset.Catalogue
import FuzzyLogic.Proofs.Membership
import Mathlib.Data.List.Nodup

/-!
# Proofs/Expr/OneOpset — a tree has one operation set, and evaluates under it

The operation set of a binary node is read off its left operand alone, and what a hook returns is
wrapped unchecked.  That this is sound rests on one invariant, `Uniform`: every leaf of a tree
carries the same operation set.  The combinators keep it (`Built.uniform`), since only conjunction
and disjunction join two trees and both refuse operands of different operation sets.

On a uniform tree evaluation is the plain fold of the three hooks over the degrees of the leaves
(`evaluate_eq_fold`): no operand check ever refuses.  Whatever the hooks preserve, evaluation
preserves (`fold_preserves`), and whatever evaluation raises, a hook has raised
(`Built.raises_of_evaluate`), a mismatch too (`Built.not_mismatch_of_evaluate`).
-/

namespace FuzzyLogic

/-- The operation sets of a program: classes, which their identity tells apart. -/
structure OpsetFamily where
  mem : Opset → Prop
  eq_of_same : ∀ {o p : Opset}, mem o → mem p → o.same p = true → o = p

namespace OpsetFamily

/-- Operation sets listed with distinct identities. -/
def ofList (l : List Opset) (h : (l.map Opset.id).Nodup) : OpsetFamily where
  mem o := o ∈ l
  eq_of_same ho hp hs := List.inj_on_of_nodup_map h ho hp (eq_of_beq hs)

end OpsetFamily

namespace Opset

/-- Some hook raises a fault on some numbers. -/
def Raises (o : Opset) (f : Fault) : Prop :=
  (∃ x, o.rawNot x = .error f) ∨ (∃ a b, o.rawOr a b = .error f) ∨
    ∃ a b, o.rawAnd a b = .error f

/-- The hooks raise nothing on numbers of a kind, and give numbers of that kind. -/
structure Preserves (o : Opset) (P : Number → Prop) : Prop where
  not : ∀ {x}, P x → ∃ y, o.rawNot x = .ok y ∧ P y
  or : ∀ {a b}, P a → P b → ∃ y, o.rawOr a b = .ok y ∧ P y
  and : ∀ {a b}, P a → P b → ∃ y, o.rawAnd a b = .ok y ∧ P y

theorem same_self (o : Opset) : o.same o = true := beq_self_eq_true o.id

/-- An operand of the own operation set passes. -/
theorem checkOperand_self (o : Opset) (operation : String) : o.checkOperand operation o = .ok () := by
  rw [checkOperand, same_self, if_pos rfl]

end Opset

namespace Node

variable {F : OpsetFamily} {o : Opset}

/-! ## Trees as they are built -/

/-- The trees that memberships of a family of operation sets, constructors, combinators and labels
make, in any order. -/
inductive Built (F : OpsetFamily) : Node → Prop
  | atom {m : Membership} : F.mem m.opset → Built F (.atom m)
  | labeled {m : Membership} (label : Label) : F.mem m.opset → Built F (.labeled m label)
  | ofDegree {raw : Number} {o : Opset} {x : Node} :
    F.mem o → Node.ofDegree raw o = .ok x → Built F x
  | withLabel {x y : Node} {label : Label} : Built F x → x.withLabel label = .ok y → Built F y
  | negate {x : Node} : Built F x → Built F x.negate
  | conjoin {x y z : Node} : Built F x → Built F y → x.conjoin y = .ok z → Built F z
  | disjoin {x y z : Node} : Built F x → Built F y → x.disjoin y = .ok z → Built F z
  | alternative {x : Node} (side : Side) : Built F x → Built F (.alternative side x)

/-! ## All leaves carry one operation set -/

/-- Every leaf carries the operation set `o`. -/
def Uniform (o : Opset) (x : Node) : Prop := ∀ m ∈ x.leaves, m.opset = o

theorem uniform_append {x y : Node} :
    (∀ m ∈ x.leaves ++ y.leaves, m.opset = o) ↔ x.Uniform o ∧ y.Uniform o := by
  simp only [Uniform, List.mem_append, or_imp, forall_and]

theorem uniform_and {x y : Node} : (and x y).Uniform o ↔ x.Uniform o ∧ y.Uniform o := uniform_append

theorem uniform_or {x y : Node} : (or x y).Uniform o ↔ x.Uniform o ∧ y.Uniform o := uniform_append

/-- The operation set of a uniform tree is that of its leaves. -/
theorem Uniform.opset_eq {x : Node} (h : x.Uniform o) : x.opset = o := by
  induction x with
  | atom m => exact h m (List.mem_singleton_self m)
  | labeled m label => exact h m (List.mem_singleton_self m)
  | not x ih => exact ih h
  | and x y ihx _ => exact ihx (uniform_and.mp h).1
  | or x y ihx _ => exact ihx (uniform_or.mp h).1
  | alternative s x ih => exact ih h

theorem ofDegree_eq_ok {raw : Number} {x : Node} (h : ofDegree raw o = .ok x) :
    ∃ m, Membership.of raw o = .ok m ∧ atom m = x := Outcome.map_eq_ok.mp h

theorem withLabel_eq_ok {x y : Node} {label : Label} (h : x.withLabel label = .ok y) :
    ∃ m, x = atom m ∧ y = labeled m label := by
  cases x <;> simp only [withLabel, Except.ok.injEq, reduceCtorEq] at h
  case atom m => exact ⟨m, rfl, h.symm⟩

/-- **The invariant of construction**: a built tree is uniform, and its operation set is one of the
family. -/
theorem Built.uniform {x : Node} (h : Built F x) : F.mem x.opset ∧ x.Uniform x.opset := by
  induction h with
  | atom hm => exact ⟨hm, by simp [Uniform, leaves, opset]⟩
  | labeled label hm => exact ⟨hm, by simp [Uniform, leaves, opset]⟩
  | ofDegree ho hx =>
    obtain ⟨m, hm, rfl⟩ := ofDegree_eq_ok hx
    obtain ⟨d, -, rfl⟩ := Membership.of_eq_ok hm
    exact ⟨ho, by simp [Uniform, leaves, opset]⟩
  | withLabel _ hy ih =>
    obtain ⟨m, rfl, rfl⟩ := withLabel_eq_ok hy
    exact ih
  | negate _ ih => exact ih
  | conjoin _ _ hz ihx ihy =>
    obtain ⟨hsame, rfl⟩ := conjoin_eq_ok_iff.mp hz
    have heq := F.eq_of_same ihx.1 ihy.1 hsame
    exact ⟨ihx.1, uniform_and.mpr ⟨ihx.2, by rw [opset, heq]; exact ihy.2⟩⟩
  | disjoin _ _ hz ihx ihy =>
    obtain ⟨hsame, rfl⟩ := disjoin_eq_ok_iff.mp hz
    have heq := F.eq_of_same ihx.1 ihy.1 hsame
    exact ⟨ihx.1, uniform_or.mpr ⟨ihx.2, by rw [opset, heq]; exact ihy.2⟩⟩
  | alternative side _ ih => exact ih

/-! ## Joining -/

theorem conjoin_of_opset_eq {x y : Node} (h : x.opset = y.opset) : x.conjoin y = .ok (and x y) :=
  conjoin_eq_ok_iff.mpr ⟨by rw [h]; exact y.opset.same_self, rfl⟩

theorem disjoin_of_opset_eq {x y : Node} (h : x.opset = y.opset) : x.disjoin y = .ok (or x y) :=
  disjoin_eq_ok_iff.mpr ⟨by rw [h]; exact y.opset.same_self, rfl⟩

theorem conjoin_of_not_same {x y : Node} (h : x.opset.same y.opset = false) :
    x.conjoin y = .error (.opsetMismatch "And" x.opset.className y.opset.className) := by
  simp [conjoin, checkSame, h, bind, Except.bind]

theorem disjoin_of_not_same {x y : Node} (h : x.opset.same y.opset = false) :
    x.disjoin y = .error (.opsetMismatch "Or" x.opset.className y.opset.className) := by
  simp [disjoin, checkSame, h, bind, Except.bind]

theorem Built.not_same {x y : Node} (hx : Built F x) (hy : Built F y) (h : x.opset ≠ y.opset) :
    x.opset.same y.opset = false :=
  Bool.eq_false_iff.mpr fun hs => h (F.eq_of_same hx.uniform.1 hy.uniform.1 hs)

/-! ## Evaluation as a fold of the hooks -/

/-- The degree of a tree by the hooks of one operation set, without any check. -/
def fold (o : Opset) : Node → Except Fault Number
  | atom m | labeled m _ => .ok m.raw
  | not child => do o.rawNot (← child.fold o)
  | and left right => do
    let a ← left.fold o
    let b ← right.fold o
    o.rawAnd a b
  | or left right => do
    let a ← left.fold o
    let b ← right.fold o
    o.rawOr a b
  | alternative _ branch => branch.fold o

/-- A degree tagged with an operation set. -/
def tagged (o : Opset) (r : Except Fault Number) : Except Fault Membership := r.map (⟨·, o⟩)

theorem negation_self (o : Opset) (x : Number) : o.negation ⟨x, o⟩ = tagged o (o.rawNot x) := by
  simp only [Opset.negation, Opset.checkOperand_self]
  rfl

theorem disjunction_self (o : Opset) (a b : Number) :
    o.disjunction ⟨a, o⟩ ⟨b, o⟩ = tagged o (o.rawOr a b) := by
  simp only [Opset.disjunction, Opset.checkOperand_self]
  rfl

theorem conjunction_self (o : Opset) (a b : Number) :
    o.conjunction ⟨a, o⟩ ⟨b, o⟩ = tagged o (o.rawAnd a b) := by
  simp only [Opset.conjunction, Opset.checkOperand_self]
  rfl

/-- **On a uniform tree evaluation is the fold of the hooks**, tagged with the operation set. -/
theorem evaluate_eq_fold {x : Node} (h : x.Uniform o) : x.evaluate = tagged o (x.fold o) := by
  induction x with
  | atom m =>
    obtain rfl := h m (List.mem_singleton_self m)
    rfl
  | labeled m label =>
    obtain rfl := h m (List.mem_singleton_self m)
    rfl
  | not x ih =>
    have hx : x.Uniform o := h
    rw [evaluate, fold, ih hx, hx.opset_eq]
    cases x.fold o with
    | error f => rfl
    | ok a => exact negation_self o a
  | and x y ihx ihy =>
    obtain ⟨hx, hy⟩ := uniform_and.mp h
    rw [evaluate, fold, ihx hx, ihy hy, hx.opset_eq]
    cases x.fold o with
    | error f => rfl
    | ok a =>
      cases y.fold o with
      | error f => rfl
      | ok b => exact conjunction_self o a b
  | or x y ihx ihy =>
    obtain ⟨hx, hy⟩ := uniform_or.mp h
    rw [evaluate, fold, ihx hx, ihy hy, hx.opset_eq]
    cases x.fold o with
    | error f => rfl
    | ok a =>
      cases y.fold o with
      | error f => rfl
      | ok b => exact disjunction_self o a b
  | alternative s x ih => exact ih h

/-- What the hooks preserve holds of every degree that evaluation computes, and it computes one. -/
theorem fold_preserves {P : Number → Prop} (ho : o.Preserves P) {x : Node}
    (h : ∀ m ∈ x.leaves, P m.raw) : ∃ d, x.fold o = .ok d ∧ P d := by
  induction x with
  | atom m => exact ⟨m.raw, rfl, h m (List.mem_singleton_self m)⟩
  | labeled m label => exact ⟨m.raw, rfl, h m (List.mem_singleton_self m)⟩
  | not x ih =>
    obtain ⟨a, ha, hPa⟩ := ih h
    obtain ⟨d, hd, hPd⟩ := ho.not hPa
    exact ⟨d, by rw [fold, ha]; exact hd, hPd⟩
  | and x y ihx ihy =>
    obtain ⟨a, ha, hPa⟩ := ihx fun m hm => h m (List.mem_append_left _ hm)
    obtain ⟨b, hb, hPb⟩ := ihy fun m hm => h m (List.mem_append_right _ hm)
    obtain ⟨d, hd, hPd⟩ := ho.and hPa hPb
    exact ⟨d, by rw [fold, ha, hb]; exact hd, hPd⟩
  | or x y ihx ihy =>
    obtain ⟨a, ha, hPa⟩ := ihx fun m hm => h m (List.mem_append_left _ hm)
    obtain ⟨b, hb, hPb⟩ := ihy fun m hm => h m (List.mem_append_right _ hm)
    obtain ⟨d, hd, hPd⟩ := ho.or hPa hPb
    exact ⟨d, by rw [fold, ha, hb]; exact hd, hPd⟩
  | alternative s x ih => exact ih h

/-- What the fold raises, a hook has raised. -/
theorem fold_error {x : Node} {f : Fault} (h : x.fold o = .error f) : o.Raises f := by
  induction x with
  | atom m => simp [fold] at h
  | labeled m label => simp [fold] at h
  | not x ih =>
    rcases Outcome.bind_eq_error.mp h with hx | ⟨a, -, hnot⟩
    · exact ih hx
    · exact .inl ⟨a, hnot⟩
  | and x y ihx ihy =>
    rcases Outcome.bind_eq_error.mp h with hx | ⟨a, -, h⟩
    · exact ihx hx
    rcases Outcome.bind_eq_error.mp h with hy | ⟨b, -, hand⟩
    · exact ihy hy
    · exact .inr (.inr ⟨a, b, hand⟩)
  | or x y ihx ihy =>
    rcases Outcome.bind_eq_error.mp h with hx | ⟨a, -, h⟩
    · exact ihx hx
    rcases Outcome.bind_eq_error.mp h with hy | ⟨b, -, hor⟩
    · exact ihy hy
    · exact .inr (.inl ⟨a, b, hor⟩)
  | alternative s x ih => exact ih h

/-- **What an evaluation raises, a hook of the tree's operation set has raised.** -/
theorem Built.raises_of_evaluate {x : Node} {f : Fault} (hx : Built F x)
    (h : x.evaluate = .error f) : x.opset.Raises f := by
  rw [evaluate_eq_fold hx.uniform.2] at h
  exact fold_error (Outcome.map_eq_error.mp h)

/-- **So an evaluation is never a mismatch**, unless a hook raises one. -/
theorem Built.not_mismatch_of_evaluate {x : Node} {f : Fault} (hx : Built F x)
    (hhooks : ∀ g, x.opset.Raises g → g.kind ≠ .opsetMismatchError)
    (h : x.evaluate = .error f) : f.kind ≠ .opsetMismatchError :=
  hhooks f (hx.raises_of_evaluate h)

/-- An operation set whose hooks choose one of their operands. -/
def choosing : Opset :=
  { Opset.root with
    id := 6
    className := "Choosing"
    negationHook := .function .ok
    disjunctionHook := .function fun a b => .ok (a.max b)
    conjunctionHook := .function fun a b => .ok (a.min b) }

/-- The catalogue and one operation set more. -/
def choosingFamily : OpsetFamily := .ofList (choosing :: Catalogue.all) (by decide)

/-- A tree with a label, an alternative and a negation, built of leaves that choose. -/
def choosingTree : Node :=
  .or (.alternative .left (.labeled ⟨.float .one, choosing⟩ (.text "a")))
    (.not (.atom ⟨.float .zero, choosing⟩))

theorem built_choosingTree : Built choosingFamily choosingTree := by
  have hmem : choosingFamily.mem choosing := List.mem_cons_self
  have hleft : Built choosingFamily (.labeled ⟨.float .one, choosing⟩ (.text "a")) :=
    .labeled _ hmem
  have hright : Built choosingFamily (.atom ⟨.float .zero, choosing⟩) := .atom hmem
  exact .disjoin (.alternative .left hleft) (.negate hright) rfl

end Node

end FuzzyLogic
