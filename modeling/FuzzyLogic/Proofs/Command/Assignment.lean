import FuzzyLogic.Command.Report
import FuzzyLogic.Proofs.Formula.Binding
import FuzzyLogic.Proofs.Formula.Operands

/-!
# Proofs/Command/Assignment — expressions over assigned degrees

A command compiles an expression, makes leaves of all assigned values, and builds.  What may be
wrong are, in this order, the syntax, a value outside `[0, 1]`, and a name without a value
(`Report.Mistake`); if nothing is, the values are well assigned (`Report.Assigns`).  One of the two
holds of every expression and all assignments, under every operation set alike
(`assigns_or_mistake`).

Then building comes to the mistake (`assign_of_mistake`), or to the formula over leaves of the
values last assigned to its names (`assign_of_assigns`), which are written the same under every
operation set (`render_instantiate_leaf`).
-/

namespace FuzzyLogic

namespace Formula

/-- Trees that are written alike make instances that are written alike. -/
theorem render_instantiate_congr {o p : Opset} {tree tree' : String → Node} {f : Formula}
    (h : ∀ n ∈ f.nameLeaves, (tree n).render = (tree' n).render) :
    (f.instantiate o tree).render = (f.instantiate p tree').render := by
  induction f with
  | name text position => exact h text (List.mem_singleton_self text)
  | literal => rfl
  | negation f ih => rw [instantiate, instantiate, Node.render, Node.render, ih h]
  | conjunction f g ihf ihg | disjunction f g ihf ihg =>
    obtain ⟨hf, hg⟩ := List.forall_mem_append.mp h
    rw [instantiate, instantiate, Node.render, Node.render, ihf hf, ihg hg]

end Formula

namespace Report

open Compiled

variable {expression name : String} {assignments before after : List (String × Binary64)}
  {o p : Opset} {labels : Bool} {c : Compiled} {f : Fault} {x : Binary64}
  {start bound : List (String × Node)}

/-! ## What may be wrong -/

/-- All assigned values are degrees, and all names of a formula are assigned. -/
structure Assigns (assignments : List (String × Binary64)) (c : Compiled) : Prop where
  isDegree : ∀ a ∈ assignments, a.2.isDegree = true
  mem_names : ∀ n ∈ c.names, n ∈ assignments.map Prod.fst

/-- The first thing that is wrong with an expression over assigned degrees: its syntax, else the
first value that is no degree, else the first name, in order of appearance, that is not assigned. -/
inductive Mistake (expression : String) (assignments : List (String × Binary64)) (o : Opset) :
    Fault → Prop
  | syntaxFault {f : Fault} : ofSource expression = .error f → Mistake expression assignments o f
  | outOfRange {c : Compiled} {before after : List (String × Binary64)} {name : String}
    {x : Binary64} : ofSource expression = .ok c → assignments = before ++ (name, x) :: after →
    (∀ a ∈ before, a.2.isDegree = true) → x.isDegree = false →
    Mistake expression assignments o (.outOfRange x o.className)
  | unboundName {c : Compiled} {before after : List String} {name : String} :
    ofSource expression = .ok c → (∀ a ∈ assignments, a.2.isDegree = true) →
    c.names = before ++ name :: after → (∀ n ∈ before, n ∈ assignments.map Prod.fst) →
    name ∉ assignments.map Prod.fst →
    Mistake expression assignments o (.unboundName name expression c.names)

/-- A list has a first element that fails a test, unless all pass. -/
theorem forall_or_first {α : Type} (passes : α → Bool) (l : List α) :
    (∀ a ∈ l, passes a = true) ∨ ∃ before a after, l = before ++ a :: after ∧
      (∀ b ∈ before, passes b = true) ∧ passes a = false := by
  cases h : l.find? (!passes ·) with
  | none => exact .inl fun a ha => by simpa using List.find?_eq_none.mp h a ha
  | some a =>
    obtain ⟨hfails, before, after, hl, hbefore⟩ := List.find?_eq_some_iff_append.mp h
    exact .inr ⟨before, a, after, hl, fun b hb => by simpa using hbefore b hb,
      by simpa using hfails⟩

/-- **Something is wrong, or nothing is**, whatever the operation set. -/
theorem assigns_or_mistake (expression : String) (assignments : List (String × Binary64)) :
    (∃ c, ofSource expression = .ok c ∧ Assigns assignments c) ∨
      ∀ o, ∃ f, Mistake expression assignments o f := by
  cases hc : ofSource expression with
  | error f => exact .inr fun o => ⟨f, .syntaxFault hc⟩
  | ok c =>
    rcases forall_or_first (fun a : String × Binary64 => a.2.isDegree) assignments with
      hdegree | ⟨before, ⟨name, x⟩, after, rfl, hbefore, hx⟩
    · rcases forall_or_first (fun n => decide (n ∈ assignments.map Prod.fst)) c.names with
        hnames | ⟨before, name, after, hnames, hbefore, hname⟩
      · exact .inl ⟨c, rfl, hdegree, fun n hn => of_decide_eq_true (hnames n hn)⟩
      · exact .inr fun o => ⟨_, .unboundName hc hdegree hnames
          (fun n hn => of_decide_eq_true (hbefore n hn)) (of_decide_eq_false hname)⟩
    · exact .inr fun o => ⟨_, .outOfRange hc rfl hbefore hx⟩

/-- There is only one first element that fails. -/
theorem first_unique {α : Type} (passes : α → Bool) {l before before' after after' : List α}
    {a a' : α} (hl : l = before ++ a :: after) (hbefore : ∀ b ∈ before, passes b = true)
    (ha : passes a = false) (hl' : l = before' ++ a' :: after')
    (hbefore' : ∀ b ∈ before', passes b = true) (ha' : passes a' = false) : a = a' := by
  have hfind : ∀ {before after : List α} {a : α}, l = before ++ a :: after →
      (∀ b ∈ before, passes b = true) → passes a = false → l.find? (!passes ·) = some a :=
    fun hl hbefore ha => List.find?_eq_some_iff_append.mpr
      ⟨by simp [ha], _, _, hl, fun b hb => by simp [hbefore b hb]⟩
  exact Option.some.inj ((hfind hl hbefore ha).symm.trans (hfind hl' hbefore' ha'))

/-- A value that is no degree is not among degrees. -/
theorem not_isDegree_of_split (h : assignments = before ++ (name, x) :: after)
    (hx : x.isDegree = false) : ¬ ∀ a ∈ assignments, a.2.isDegree = true := by
  intro hdegree
  have hmem : (name, x) ∈ assignments := h ▸ List.mem_append_right _ List.mem_cons_self
  exact Bool.false_ne_true (hx.symm.trans (hdegree _ hmem))

/-- **Only one thing is the first that is wrong.** -/
theorem Mistake.unique {f' : Fault} (h : Mistake expression assignments o f)
    (h' : Mistake expression assignments o f') : f = f' := by
  cases h with
  | syntaxFault hf =>
    cases h' with
    | syntaxFault hf' => exact Except.error.inj (hf.symm.trans hf')
    | outOfRange hc' => rw [hf] at hc'; cases hc'
    | unboundName hc' => rw [hf] at hc'; cases hc'
  | outOfRange hc hsplit hbefore hx =>
    cases h' with
    | syntaxFault hf' => rw [hc] at hf'; cases hf'
    | outOfRange _ hsplit' hbefore' hx' =>
      have heq := first_unique (fun a : String × Binary64 => a.2.isDegree)
        hsplit hbefore hx hsplit' hbefore' hx'
      rw [(Prod.mk.inj heq).2]
    | unboundName _ hdegree => exact absurd hdegree (not_isDegree_of_split hsplit hx)
  | unboundName hc hdegree hsplit hbefore hname =>
    cases h' with
    | syntaxFault hf' => rw [hc] at hf'; cases hf'
    | outOfRange _ hsplit' _ hx' => exact absurd hdegree (not_isDegree_of_split hsplit' hx')
    | unboundName hc' _ hsplit' hbefore' hname' =>
      obtain rfl := Except.ok.inj (hc.symm.trans hc')
      have heq := first_unique (fun n => decide (n ∈ assignments.map Prod.fst)) hsplit
        (fun n hn => decide_eq_true (hbefore n hn)) (decide_eq_false hname) hsplit'
        (fun n hn => decide_eq_true (hbefore' n hn)) (decide_eq_false hname')
      rw [heq]

/-- Something is not wrong and right at once. -/
theorem Mistake.not_assigns (h : Mistake expression assignments o f) :
    ¬ ∃ c, ofSource expression = .ok c ∧ Assigns assignments c := by
  rintro ⟨c, hc, hdegree, hnames⟩
  cases h with
  | syntaxFault hf =>
    rw [hc] at hf
    cases hf
  | outOfRange _ hsplit _ hx => exact not_isDegree_of_split hsplit hx hdegree
  | unboundName hc' _ hsplit _ hname =>
    obtain rfl := Except.ok.inj (hc.symm.trans hc')
    exact hname (hnames _ (hsplit ▸ List.mem_append_right _ List.mem_cons_self))

/-- What is wrong is a mistake of the caller. -/
theorem Mistake.isMistake (h : Mistake expression assignments o f) : f.isMistake = true := by
  cases h with
  | syntaxFault hf =>
    obtain ⟨fault, -, rfl⟩ := Outcome.mapError_eq_error.mp (Outcome.map_eq_error.mp hf)
    rfl
  | outOfRange => rfl
  | unboundName => rfl

/-! ## Leaves -/

/-- The value last assigned to a name. -/
def degreeOf (assignments : List (String × Binary64)) (name : String) : Binary64 :=
  (assignments.reverse.lookup name).getD .zero

/-- The leaf of a name under an operation set. -/
def leaf (assignments : List (String × Binary64)) (labels : Bool) (o : Opset) (name : String) :
    Node :=
  leafOf labels name ⟨.float (degreeOf assignments name), o⟩

theorem uniform_leaf : (leaf assignments labels o name).Uniform o := by
  cases labels <;> exact fun m hm => by rw [List.mem_singleton.mp hm]

/-- A leaf is written the same under every operation set. -/
theorem render_leaf : (leaf assignments labels o name).render =
    (leaf assignments labels p name).render := by
  cases labels <;> rfl

/-- **So is a formula over leaves.** -/
theorem render_instantiate_leaf (f : Formula) :
    (f.instantiate o (leaf assignments labels o)).render =
      (f.instantiate p (leaf assignments labels p)).render :=
  Formula.render_instantiate_congr fun _ _ => render_leaf

/-- Over degrees, binding finds under a name the value last assigned to it. -/
theorem exists_foldlM_numbers (labels : Bool) (start : List (String × Node))
    (h : ∀ a ∈ assignments, a.2.isDegree = true) :
    ∃ bound, (numbers assignments).foldlM (bindOperand o labels) start = .ok bound ∧
      ∀ n, bound.lookup n = ((assignments.reverse.lookup n).map fun x =>
        leafOf labels n ⟨.float x, o⟩).or (start.lookup n) := by
  induction assignments generalizing start with
  | nil => exact ⟨start, rfl, fun n => rfl⟩
  | cons a rest ih =>
    obtain ⟨key, x⟩ := a
    obtain ⟨hx, hrest⟩ := List.forall_mem_cons.mp h
    obtain ⟨bound, hbound, hlookup⟩ :=
      ih (Entries.put key (leafOf labels key ⟨.float x, o⟩) start) hrest
    refine ⟨bound, ?_, fun n => ?_⟩
    · rw [numbers, List.map_cons, List.foldlM_cons, bindOperand, Membership.of_of_isDegree hx]
      exact hbound
    · rw [hlookup, Entries.lookup_put, List.reverse_cons, List.lookup_append, List.lookup_cons]
      cases rest.reverse.lookup n with
      | some y => rfl
      | none =>
        by_cases hn : n = key
        · simp [hn]
        · simp [hn, beq_eq_false_iff_ne.mpr hn]

/-- The first value that is no degree ends the binding. -/
theorem foldlM_numbers_of_outOfRange (hbefore : ∀ a ∈ before, a.2.isDegree = true)
    (hx : x.isDegree = false) :
    (numbers (before ++ (name, x) :: after)).foldlM (bindOperand o labels) start =
      .error (.outOfRange x o.className) := by
  obtain ⟨bound, hbound, -⟩ := exists_foldlM_numbers labels start hbefore
  rw [numbers, List.map_append, List.foldlM_append]
  change (numbers before).foldlM (bindOperand o labels) start >>= _ = _
  rw [hbound, List.map_cons]
  change List.foldlM (bindOperand o labels) bound _ = _
  rw [List.foldlM_cons, bindOperand, Membership.of_of_not_isDegree hx]
  rfl

/-! ## Building -/

/-- Over degrees, exactly the assigned names are in scope, each with its leaf. -/
theorem exists_bindOperands_numbers (labels : Bool) (o : Opset)
    (h : ∀ a ∈ assignments, a.2.isDegree = true) :
    ∃ bound, bindOperands (numbers assignments) o labels = .ok bound ∧
      ∀ n, scopeOf bound n = if n ∈ assignments.map Prod.fst
        then some (.node (leaf assignments labels o n)) else none := by
  obtain ⟨bound, hbound, hlookup⟩ := exists_foldlM_numbers labels [] h
  refine ⟨bound, bindOperands_eq.trans hbound, fun n => ?_⟩
  rw [scopeOf, hlookup, List.lookup_nil, Option.or_none]
  cases hfound : assignments.reverse.lookup n with
  | some x =>
    have hmem := List.mem_map_of_mem (f := Prod.fst) (Entries.mem_of_lookup hfound)
    rw [List.map_reverse, List.mem_reverse] at hmem
    rw [if_pos hmem, leaf, degreeOf, hfound]
    rfl
  | none =>
    have hmem := Entries.not_mem_keys hfound
    rw [List.map_reverse, List.mem_reverse] at hmem
    rw [if_neg hmem]
    rfl

/-- **Building comes to the formula over the assigned values**, if nothing is wrong. -/
theorem assign_of_assigns (hc : ofSource expression = .ok c) (h : Assigns assignments c) :
    c.assign (numbers assignments) labels o =
      .ok (c.formula.instantiate o (leaf assignments labels o)) := by
  obtain ⟨bound, hbound, hscope⟩ := exists_bindOperands_numbers labels o h.isDegree
  rw [assign, hbound]
  refine build_of_bound (legible_of_ofSource hc) (fun n hn => ?_) (.inl rfl)
  exact ⟨_, (hscope n).trans (if_pos (h.mem_names n hn)), .node uniform_leaf⟩

/-- **Building comes to the mistake**, if there is one. -/
theorem assign_of_mistake (h : Mistake expression assignments o f)
    (hc : ofSource expression = .ok c) : c.assign (numbers assignments) labels o = .error f := by
  cases h with
  | syntaxFault hf =>
    rw [hc] at hf
    cases hf
  | outOfRange _ hsplit hbefore hx =>
    rw [assign, bindOperands_eq, hsplit, foldlM_numbers_of_outOfRange hbefore hx]
    rfl
  | unboundName hc' hdegree hsplit hbefore hname =>
    obtain rfl := Except.ok.inj (hc.symm.trans hc')
    obtain ⟨bound, hbound, hscope⟩ := exists_bindOperands_numbers labels o hdegree
    rw [assign, hbound]
    change c.build (scopeOf bound) (some o) = _
    refine build_of_misbound hsplit (fun n hn => ⟨leaf assignments labels o n, ?_⟩) ?_
    · rw [resolve, hscope, if_pos (hbefore n hn)]
      rfl
    · rw [resolve, hscope, if_neg hname, (ofSource_eq_ok_iff.mp hc).1]

end Report

end FuzzyLogic
