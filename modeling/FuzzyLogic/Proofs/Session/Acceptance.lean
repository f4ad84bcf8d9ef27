import FuzzyLogic.Proofs.Expr.HookCalls
import FuzzyLogic.Proofs.Opset.Hierarchy
import FuzzyLogic.Proofs.Session.Construction
import FuzzyLogic.Session.Member

/-!
# Proofs/Session/Acceptance — operation sets that degrees are made of

A degree can be made of every class of a hierarchy: no construction looks at hooks
(`Opset.accepted`).  An evaluation raises what a hook raises when it is called
(`Opset.HookRaises`), or, for an operation whose hook the class lacks, the fault of looking it up
(`Node.missing?`).  A class with all hooks excludes the latter.

So whether an evaluation can raise a fault of its own depends on how the class has been defined: the
root and what an abstract definition leaves without a hook are accepted, and fail at the first
operation that they lack (`Hierarchy.evaluation_of_accepted`).
-/

namespace FuzzyLogic

/-! ## Hooks that are called, and hooks that are missing -/

/-- The name of the hook. -/
def Connective.hookName : Connective → String
  | conjunction => "raw_and"
  | disjunction => "raw_or"

theorem Connective.hook_eq_get (c : Connective) (o : Opset) (a b : Number) : c.hook o a b = (do
    let run ← (c.slot o).get o.className c.hookName
    run a b) := by cases c <;> rfl

namespace Opset

variable {o : Opset} {f : Fault}

/-- A hook that an operation set holds raises a fault when it is called. -/
def HookRaises (o : Opset) (f : Fault) : Prop :=
  (∃ run a, o.negationHook = .function run ∧ run a = .error f) ∨
    ∃ (c : Connective) (run : BinaryHook) (a b : Number),
      c.slot o = .function run ∧ run a b = .error f

/-- A class without all hooks holds no function under some name. -/
theorem exists_not_function (h : o.isConcrete = false) :
    o.negationHook.isFunction = false ∨ ∃ c : Connective, (c.slot o).isFunction = false := by
  simp only [isConcrete, Bool.and_eq_false_iff] at h
  rcases h with (hnot | hor) | hand
  · exact .inl hnot
  · exact .inr ⟨.disjunction, hor⟩
  · exact .inr ⟨.conjunction, hand⟩

end Opset

namespace Hook

variable {α : Type} {hook : Hook α} {run : α} {f : Fault} {className name : String}

theorem get_eq_ok (h : hook.get className name = .ok run) : hook = .function run := by
  cases hook with
  | missing | constant _ => cases h
  | function run' => exact congrArg function (Except.ok.inj h)

theorem not_isFunction_of_get (h : hook.get className name = .error f) :
    hook.isFunction = false := by
  cases hook with
  | missing | constant _ => rfl
  | function _ => cases h

theorem exists_get_eq_error (className name : String) (h : hook.isFunction = false) :
    ∃ f, hook.get className name = .error f := by
  cases hook with
  | missing | constant _ => exact ⟨_, rfl⟩
  | function _ => cases h

end Hook

namespace Node

variable {o : Opset} {x y : Node} {f : Fault}

/-- The fault of looking up the hook that an operation calls, if its class lacks it. -/
def missing? (o : Opset) : Node → Option Fault
  | not _ => fault? (o.negationHook.get o.className "raw_not")
  | and _ _ => fault? (o.conjunctionHook.get o.className "raw_and")
  | or _ _ => fault? (o.disjunctionHook.get o.className "raw_or")
  | _ => none

theorem missing?_node (c : Connective) (o : Opset) (x y : Node) :
    (c.node x y).missing? o = fault? ((c.slot o).get o.className c.hookName) := by cases c <;> rfl

theorem fault?_eq_some_iff {α : Type} {r : Except Fault α} : fault? r = some f ↔ r = .error f := by
  cases r <;> simp [fault?]

/-- A class with all hooks lacks none. -/
theorem isConcrete_eq_false_of_missing? (h : x.missing? o = some f) : o.isConcrete = false := by
  have hlacks : ∀ {α : Type} {hook : Hook α} {name : String},
      fault? (hook.get o.className name) = some f → hook.isFunction = false :=
    fun h => Hook.not_isFunction_of_get (fault?_eq_some_iff.mp h)
  cases x with
  | atom | labeled | alternative => cases h
  | not x => simp [Opset.isConcrete, hlacks h]
  | and x y => simp [Opset.isConcrete, hlacks h]
  | or x y => simp [Opset.isConcrete, hlacks h]

/-- Calling a hook raises what it raises, or the fault of looking it up. -/
theorem hookRaises_of_join {c : Connective} {a b : Number} (h : c.hook o a b = .error f) :
    o.HookRaises f ∨ (c.node x y).missing? o = some f := by
  rw [Connective.hook_eq_get] at h
  rcases Outcome.bind_eq_error.mp h with hget | ⟨run, hget, hrun⟩
  · exact .inr ((missing?_node c o x y).trans (fault?_eq_some_iff.mpr hget))
  · exact .inl (.inr ⟨c, run, a, b, Hook.get_eq_ok hget, hrun⟩)

theorem hookRaises_of_rawNot {a : Number} (h : o.rawNot a = .error f) :
    o.HookRaises f ∨ (not x).missing? o = some f := by
  rcases Outcome.bind_eq_error.mp h with hget | ⟨run, hget, hrun⟩
  · exact .inr (fault?_eq_some_iff.mpr hget)
  · exact .inl (.inl ⟨run, a, Hook.get_eq_ok hget, hrun⟩)

/-- An operation of a tree whose hook is missing, with this fault. -/
def Lacks (o : Opset) (x : Node) (f : Fault) : Prop := ∃ y ∈ x.operations, y.missing? o = some f

/-- **What the fold raises** a hook raises that the class holds, or an operation of the tree lacks
its hook. -/
theorem hookRaises_of_fold (h : x.fold o = .error f) : o.HookRaises f ∨ x.Lacks o f := by
  -- Both binary operations at once: first the two sides, in their order, then the hook.
  have hnode : ∀ (c : Connective) (x y : Node),
      (x.fold o = .error f → o.HookRaises f ∨ x.Lacks o f) →
      (y.fold o = .error f → o.HookRaises f ∨ y.Lacks o f) →
      (c.node x y).fold o = .error f → o.HookRaises f ∨ (c.node x y).Lacks o f := by
    intro c x y ihx ihy h
    rw [fold_node] at h
    have hbelow : ∀ z, z ∈ x.operations ∨ z ∈ y.operations ∨ z = c.node x y →
        z ∈ (c.node x y).operations := by simp [operations_node]
    rcases Outcome.bind_eq_error.mp h with hx | ⟨a, -, h⟩
    · exact (ihx hx).imp_right fun ⟨z, hz, hf⟩ => ⟨z, hbelow z (.inl hz), hf⟩
    rcases Outcome.bind_eq_error.mp h with hy | ⟨b, -, h⟩
    · exact (ihy hy).imp_right fun ⟨z, hz, hf⟩ => ⟨z, hbelow z (.inr (.inl hz)), hf⟩
    · exact (hookRaises_of_join h).imp_right fun hf => ⟨_, hbelow _ (.inr (.inr rfl)), hf⟩
  induction x with
  | atom m | labeled m _ => cases h
  | not x ih =>
    have hbelow : ∀ z, z ∈ x.operations ∨ z = not x → z ∈ (not x).operations := by
      simp [operations_not]
    rcases Outcome.bind_eq_error.mp h with hx | ⟨a, -, hnot⟩
    · exact (ih hx).imp_right fun ⟨z, hz, hf⟩ => ⟨z, hbelow z (.inl hz), hf⟩
    · exact (hookRaises_of_rawNot hnot).imp_right fun hf => ⟨_, hbelow _ (.inr rfl), hf⟩
  | and x y ihx ihy => exact hnode .conjunction x y ihx ihy h
  | or x y ihx ihy => exact hnode .disjunction x y ihx ihy h
  | alternative s x ih =>
    rw [Lacks, operations_alternative]
    exact ih h

/-- **A missing hook is found out at evaluation**: of a class that lacks one there is a tree that
evaluates to the fault of looking it up. -/
theorem exists_lacking {F : OpsetFamily} (hF : F.mem o) (h : o.isConcrete = false) :
    ∃ x f, Built F x ∧ x.opset = o ∧ (∀ m ∈ x.leaves, m.Validated) ∧
      x.missing? o = some f ∧ x.evaluate = .error f := by
  -- A leaf calls no hook, so that the operation over it is the first to look one up.
  let m : Membership := ⟨.float .one, o⟩
  have hvalid : m.Validated := Membership.validated_iff.mpr ⟨.one, rfl, by decide⟩
  have hleaf : Built F (.atom m) := .atom hF
  rcases Opset.exists_not_function h with hnot | ⟨c, hslot⟩
  · obtain ⟨f, hf⟩ := Hook.exists_get_eq_error o.className "raw_not" hnot
    refine ⟨.not (.atom m), f, hleaf.negate, rfl, ?_, fault?_eq_some_iff.mpr hf, ?_⟩
    · simpa [leaves] using hvalid
    · have hraw : o.rawNot m.raw = .error f := Outcome.bind_eq_error.mpr (.inl hf)
      rw [evaluate_eq_fold (o := o) (by simp [Uniform, leaves, m])]
      exact Outcome.map_eq_error.mpr hraw
  · obtain ⟨f, hf⟩ := Hook.exists_get_eq_error o.className c.hookName hslot
    have hbuilt : Built F (c.node (.atom m) (.atom m)) := by
      cases c with
      | conjunction => exact .conjoin hleaf hleaf (conjoin_of_opset_eq rfl)
      | disjunction => exact .disjoin hleaf hleaf (disjoin_of_opset_eq rfl)
    have hleaves : ∀ n ∈ (c.node (.atom m) (.atom m)).leaves, n = m := by
      simp [leaves_node, leaves]
    have huniform : (c.node (.atom m) (.atom m)).Uniform o := fun n hn => by rw [hleaves n hn]
    refine ⟨_, f, hbuilt, huniform.opset_eq, fun n hn => hleaves n hn ▸ hvalid,
      (missing?_node c o _ _).trans (fault?_eq_some_iff.mpr hf), ?_⟩
    rw [evaluate_eq_fold huniform, fold_node]
    have hhook : c.hook o m.raw m.raw = .error f := by
      rw [Connective.hook_eq_get]
      exact Outcome.bind_eq_error.mpr (.inl hf)
    exact Outcome.map_eq_error.mpr hhook

end Node

/-! ## Acceptance -/

/-- **No construction looks at hooks**: whatever lies in `[0, 1]` becomes the same degree in all
ways, of every operation set. -/
theorem Opset.accepted (o : Opset) {raw : Number} (h : Membership.inRange raw = true) :
    ∃ m, m.opset = o ∧ Membership.of raw o = .ok m ∧ Membership.of? raw o = .ok (some m) ∧
      Membership.fit raw o = .ok m ∧ Node.ofDegree raw o = .ok (.atom m) := by
  obtain ⟨m, hm, hoffer⟩ := Membership.exists_of?_of_inRange (o := o) h
  obtain ⟨_, -, hopset⟩ := Membership.of_eq_ok hm
  exact ⟨m, congrArg Membership.opset hopset, hm, hoffer, (Membership.fit_of_inRange h).2.trans hm,
    Outcome.map_eq_ok.mpr ⟨m, hm, rfl⟩⟩

namespace Session

theorem follows_member (raw : Number) (o : Opset) :
    Follows Value.IsDegree (opsetMethod o "member" [.number raw]) (Membership.of raw o) :=
  follows_construct raw o

theorem follows_atom (raw : Number) (o : Opset) :
    Follows Value.IsTree (opsetMethod o "atom" [.number raw]) (Node.ofDegree raw o) := by
  have h := (follows_construct raw o).bind (Q := Value.IsTree) (k := makeAtom)
    (g := fun m => .ok (.atom m)) fun _ _ => follows_makeAtom
  rw [Node.ofDegree]
  cases hm : Membership.of raw o <;> (rw [hm] at h; exact h)

end Session

variable {classes : List Opset} {r : Registry}

/-- **Evaluation under the operation sets that are accepted.**  Of every hierarchy that definitions
make:

* a degree in `[0, 1]` is made of each of its classes in all ways, in sessions too; the classes that
  lack a hook are the root, or have been made by an abstract definition;
* an evaluation of a tree of such degrees raises only what a hook raises that the class of the tree
  holds, unless that class lacks the hook of some operation of the tree;
* of every class that lacks a hook there is a tree of validated degrees whose evaluation raises the
  fault of looking it up.

The classes of a session of definitions are such a hierarchy. -/
theorem Hierarchy.evaluation_of_accepted (h : Hierarchy classes r) :
    (∀ o ∈ classes,
      (∀ raw, Membership.inRange raw = true → ∃ m, m.opset = o ∧ Membership.of raw o = .ok m ∧
        Membership.of? raw o = .ok (some m) ∧ Membership.fit raw o = .ok m ∧
        Node.ofDegree raw o = .ok (.atom m)) ∧
      (o.isConcrete = true ∨ o = .root ∨
        ∃ (d : Definition) (id : Nat), d.isAbstract = true ∧ d.base ∈ classes ∧
          o = d.toOpset id)) ∧
    (∀ x, Node.Built h.family x → ∀ f, x.evaluate = .error f →
      x.opset.HookRaises f ∨ x.opset.isConcrete = false ∧ x.Lacks x.opset f) ∧
    (∀ o ∈ classes, o.isConcrete = false → ∃ x f, Node.Built h.family x ∧ x.opset = o ∧
      (∀ m ∈ x.leaves, m.Validated) ∧ x.missing? o = some f ∧ x.evaluate = .error f) ∧
    (∀ steps : List Session.Step, (∀ step ∈ steps, ∃ sketch, step.call = .define sketch) →
      let s := ((Session.runSteps steps).run Session.start).2
      Hierarchy (s.classes.map Prod.snd) s.registry) ∧
    ∀ raw o,
      Session.Follows Value.IsDegree (Session.construct (.number raw) (.opset o))
        (Membership.of raw o) ∧
      Session.Follows Value.MayBeDegree (Session.tryConstruct (.number raw) (.opset o))
        (Membership.of? raw o) ∧
      Session.Follows Value.IsDegree (Session.fit (.number raw) (.opset o))
        (Membership.fit raw o) ∧
      Session.Follows Value.IsDegree (Session.opsetMethod o "member" [.number raw])
        (Membership.of raw o) ∧
      Session.Follows Value.IsTree (Session.opsetMethod o "atom" [.number raw])
        (Node.ofDegree raw o) := by
  refine ⟨fun o ho => ⟨fun raw => o.accepted, h.mem_cases ho⟩, fun x hx f hf => ?_,
    fun o ho hlacks => Node.exists_lacking ho hlacks, fun steps hsteps => ?_, fun raw o => ?_⟩
  · rw [Node.evaluate_eq_fold hx.uniform.2] at hf
    refine (Node.hookRaises_of_fold (Outcome.map_eq_error.mp hf)).imp_right fun hlacks => ?_
    obtain ⟨y, -, hy⟩ := id hlacks
    exact ⟨Node.isConcrete_eq_false_of_missing? hy, hlacks⟩
  · exact (Session.hierarchical_start.runSteps hsteps).hierarchy
  · exact ⟨Session.follows_construct raw o, Session.follows_tryConstruct raw o,
      Session.follows_fit raw o, Session.follows_member raw o, Session.follows_atom raw o⟩

/-- A definition of a class that only negates, and raises when it does. -/
def Definition.halting : Definition where
  className := "Halting"
  home := "custom"
  base := .root
  negationHook := .function fun _ => .error .divisionByZero
  disjunctionHook := .missing
  conjunctionHook := .missing
  name := none
  doc := none
  differentiable := none
  formulas := none
  isAbstract := true
  isRegistered := true

/-- The class is accepted; what its negation raises is its own, and the fault of looking up what it
lacks is not. -/
theorem halting_is_accepted : ∃ (classes : List Opset) (h : Hierarchy classes .catalogue),
    Definition.halting.toOpset 6 ∈ classes ∧
    (∃ m, m.opset = Definition.halting.toOpset 6 ∧
      Membership.of (.float .one) m.opset = .ok m ∧
      (∀ f, (Node.atom m).negate.evaluate = .error f → m.opset.HookRaises f)) ∧
    ∃ x f, Node.Built h.family x ∧ x.opset = Definition.halting.toOpset 6 ∧
      x.evaluate = .error f := by
  let o := Definition.halting.toOpset 6
  let classes := o :: .root :: Catalogue.all
  have h : Hierarchy classes .catalogue :=
    Hierarchy.start.define List.mem_cons_self (by decide) (Definition.define_of_abstract rfl)
  obtain ⟨haccepted, hraises, hlacks, -⟩ := h.evaluation_of_accepted
  obtain ⟨m, hopset, hm, -⟩ := (haccepted o List.mem_cons_self).1 (.float .one) (by decide)
  obtain ⟨x, f, hx, hxo, -, -, hf⟩ := hlacks o List.mem_cons_self rfl
  refine ⟨classes, h, List.mem_cons_self, ⟨m, hopset, hopset ▸ hm, fun f hf => ?_⟩, x, f, hx, hxo,
    hf⟩
  have hmem : h.family.mem m.opset := by
    rw [hopset]
    exact List.mem_cons_self
  rcases hraises _ (Node.Built.atom hmem).negate f hf with hown | ⟨-, y, hy, hmissing⟩
  · exact hown
  · obtain rfl := List.mem_singleton.mp (show y ∈ [Node.not (.atom m)] from hy)
    have hnone : (Node.not (.atom m)).missing? m.opset = none := by
      rw [hopset]
      rfl
    cases hnone.symm.trans hmissing

/-- The root is accepted, and fails at the first negation, with a fault that is not raised by any
hook of its own. -/
theorem root_fails_at_evaluation :
    Hierarchy (.root :: Catalogue.all) .catalogue ∧
    Membership.of (.float .one) .root = .ok ⟨.float .one, .root⟩ ∧
    (Node.atom ⟨.float .one, .root⟩).negate.evaluate =
      .error (.missingClassAttribute "Opset" "raw_not") ∧
    ∀ f, ¬ Opset.root.HookRaises f := by
  refine ⟨.start, rfl, rfl, ?_⟩
  rintro f (⟨run, a, hrun, -⟩ | ⟨c, run, a, b, hrun, -⟩)
  · cases hrun
  · cases c <;> cases hrun

end FuzzyLogic
