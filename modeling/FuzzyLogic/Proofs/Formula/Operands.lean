import FuzzyLogic.Formula.Compiled
import FuzzyLogic.Proofs.Entries
import FuzzyLogic.Proofs.Outcome

/-!
# Proofs/Formula/Operands — what names are bound to

Binding named degrees makes a leaf of every assignment and puts it under its name.  So there is an
operand under every assigned name (`isSome_of_bindOperands`), and every operand is the leaf of some
assignment of its name (`leaf_of_bindOperands`).

Binding the names of a formula in a scope gives each name the tree that its operand stands for
(`lookup_of_bindNames`).
-/

namespace FuzzyLogic

namespace Compiled

variable {assignments : List (String × Number)} {o : Opset} {labels : Bool}
  {bound start : List (String × Node)} {name : String} {x : Node}

/-! ## Named degrees -/

/-- The leaf of a named degree. -/
def leafOf (labels : Bool) (name : String) (value : Membership) : Node :=
  if labels then .labeled value (.text name) else .atom value

/-- Puts the leaf of an assignment under its name. -/
def bindOperand (o : Opset) (labels : Bool) (bound : List (String × Node))
    (assignment : String × Number) : Except Fault (List (String × Node)) :=
  (Membership.of assignment.2 o).map fun value =>
    Entries.put assignment.1 (leafOf labels assignment.1 value) bound

theorem bindOperands_eq : bindOperands assignments o labels =
    assignments.foldlM (bindOperand o labels) [] := rfl

theorem exists_foldlM (labels : Bool) (h : ∀ a ∈ assignments, ∃ m, Membership.of a.2 o = .ok m) :
    ∃ bound, assignments.foldlM (bindOperand o labels) start = .ok bound := by
  induction assignments generalizing start with
  | nil => exact ⟨start, rfl⟩
  | cons a rest ih =>
    obtain ⟨⟨m, hm⟩, hrest⟩ := List.forall_mem_cons.mp h
    rw [List.foldlM_cons, bindOperand, hm]
    exact ih hrest

/-- Degrees that all are valid are bound. -/
theorem exists_bindOperands (labels : Bool)
    (h : ∀ a ∈ assignments, ∃ m, Membership.of a.2 o = .ok m) :
    ∃ bound, bindOperands assignments o labels = .ok bound := exists_foldlM labels h

/-- Under a name stands what stood there before, or the leaf of an assignment of it. -/
theorem leaf_of_foldlM (h : assignments.foldlM (bindOperand o labels) start = .ok bound)
    (hx : bound.lookup name = some x) :
    start.lookup name = some x ∨ ∃ raw m, (name, raw) ∈ assignments ∧
      Membership.of raw o = .ok m ∧ x = leafOf labels name m := by
  induction assignments generalizing start with
  | nil =>
    obtain rfl : start = bound := Except.ok.inj h
    exact .inl hx
  | cons a rest ih =>
    obtain ⟨key, raw⟩ := a
    rw [List.foldlM_cons] at h
    obtain ⟨next, hnext, h⟩ := Outcome.bind_eq_ok.mp h
    obtain ⟨m, hm, rfl⟩ := Outcome.map_eq_ok.mp hnext
    rcases ih h with hput | ⟨raw', m', hmem, hm', rfl⟩
    · rw [Entries.lookup_put] at hput
      split at hput
      case isTrue hname =>
        subst hname
        exact .inr ⟨raw, m, List.mem_cons_self, hm, (Option.some.inj hput).symm⟩
      case isFalse => exact .inl hput
    · exact .inr ⟨raw', m', List.mem_cons_of_mem _ hmem, hm', rfl⟩

/-- Every operand is the leaf of an assignment of its name. -/
theorem leaf_of_bindOperands (h : bindOperands assignments o labels = .ok bound)
    (hx : bound.lookup name = some x) :
    ∃ raw m, (name, raw) ∈ assignments ∧ Membership.of raw o = .ok m ∧ x = leafOf labels name m := by
  rw [bindOperands_eq] at h
  exact (leaf_of_foldlM h hx).resolve_left (by simp)

/-- A name that has an operand, or gets one, has one in the end. -/
theorem isSome_of_foldlM (h : assignments.foldlM (bindOperand o labels) start = .ok bound)
    (hname : (start.lookup name).isSome ∨ name ∈ assignments.map Prod.fst) :
    (bound.lookup name).isSome := by
  induction assignments generalizing start with
  | nil =>
    obtain rfl : start = bound := Except.ok.inj h
    exact hname.resolve_right (by simp)
  | cons a rest ih =>
    rw [List.foldlM_cons] at h
    obtain ⟨next, hnext, h⟩ := Outcome.bind_eq_ok.mp h
    obtain ⟨m, -, rfl⟩ := Outcome.map_eq_ok.mp hnext
    refine ih h ?_
    rw [Entries.lookup_put]
    by_cases hkey : name = a.1
    · exact .inl (by simp [hkey])
    · rw [if_neg hkey]
      exact hname.imp_right fun hmem => (List.mem_cons.mp hmem).resolve_left hkey

/-- Every assigned name has an operand. -/
theorem isSome_of_bindOperands (h : bindOperands assignments o labels = .ok bound)
    (hname : name ∈ assignments.map Prod.fst) : (bound.lookup name).isSome := by
  rw [bindOperands_eq] at h
  exact isSome_of_foldlM h (.inr hname)

/-- The tree bound to a name, and `other` if there is none. -/
def treeOf (other : Node) (bound : List (String × Node)) (name : String) : Node :=
  (bound.lookup name).getD other

theorem lookup_eq_treeOf (h : (bound.lookup name).isSome) :
    bound.lookup name = some (treeOf x bound name) := by
  obtain ⟨y, hy⟩ := Option.isSome_iff_exists.mp h
  rw [treeOf, hy, Option.getD_some]

/-! ## Names of a formula -/

variable {c : Compiled} {scope : String → Option Operand}

/-- **Every name that is bound has an operand in the scope, and the tree it stands for.** -/
theorem lookup_of_bindNames {names : List String}
    (h : bindNames (nodes scope) c names = .ok bound) :
    ∀ n ∈ names, ∃ operand x, scope n = some operand ∧ operand.toNode n = .ok x ∧
      bound.lookup n = some x := by
  induction names generalizing bound with
  | nil => exact nofun
  | cons name names ih =>
    rw [bindNames] at h
    simp only [nodes] at h
    cases hscope : scope name with
    | none =>
      rw [hscope] at h
      exact nomatch h
    | some operand =>
      rw [hscope] at h
      obtain ⟨x, hx, h⟩ := Outcome.bind_eq_ok.mp h
      obtain ⟨rest, hrest, h⟩ := Outcome.bind_eq_ok.mp h
      obtain rfl : (name, x) :: rest = bound := Except.ok.inj h
      intro n hn
      rw [List.lookup_cons]
      by_cases hname : n = name
      · subst hname
        exact ⟨operand, x, hscope, hx, by simp⟩
      · rw [beq_eq_false_iff_ne.mpr hname]
        exact ih hrest n ((List.mem_cons.mp hn).resolve_left hname)

end Compiled

end FuzzyLogic
