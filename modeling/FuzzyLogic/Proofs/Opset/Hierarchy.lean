import FuzzyLogic.Proofs.Expr.OneOpset
import FuzzyLogic.Proofs.Opset.History

/-!
# Proofs/Opset/Hierarchy — the classes after a history of definitions

A `Hierarchy` is the list of classes that definitions make in turn, from the root and the catalogue
on, with the registry beside them.  Every definition has one of the classes as its base and gives
the class it makes an identity of its own, so that identities tell the classes of a hierarchy apart
(`Hierarchy.nodup_ids`).

A definition demands all hooks unless it is abstract.  Hence a class that lacks a hook is the root,
which nothing has defined, or has been made by an abstract definition (`Hierarchy.mem_cases`).

The classes of a session of definitions are such a hierarchy (`Session.Hierarchical.runSteps`).
-/

namespace FuzzyLogic

namespace Definition

variable {d : Definition} {id : Nat} {r next : Registry} {o : Opset}

/-- **What a definition makes** is what it describes; unless it is abstract, with all hooks. -/
theorem eq_toOpset_of_define (h : d.define id r = .ok (o, next)) :
    o = d.toOpset id ∧ (d.isAbstract = true ∨ o.isConcrete = true) := by
  cases habstract : d.isAbstract with
  | true =>
    rw [define_of_abstract habstract] at h
    exact ⟨(congrArg Prod.fst (Except.ok.inj h)).symm, .inl rfl⟩
  | false =>
    cases hconcrete : (d.toOpset id).isConcrete with
    | false =>
      rw [define_of_incomplete habstract hconcrete] at h
      cases h
    | true =>
      have ho : o = d.toOpset id := by
        rw [define_of_concrete habstract hconcrete] at h
        split at h
        case isTrue =>
          obtain ⟨_, -, heq⟩ := Outcome.map_eq_ok.mp h
          exact (congrArg Prod.fst heq).symm
        case isFalse => exact (congrArg Prod.fst (Except.ok.inj h)).symm
      exact ⟨ho, .inr (ho ▸ hconcrete)⟩

end Definition

/-! ## Hierarchies -/

/-- The classes that definitions make in turn, the last one first, and the registry beside them.  A
definition that fails makes none. -/
inductive Hierarchy : List Opset → Registry → Prop
  | start : Hierarchy (.root :: Catalogue.all) .catalogue
  | define {classes : List Opset} {r next : Registry} {d : Definition} {id : Nat} {o : Opset} :
    Hierarchy classes r → d.base ∈ classes → (∀ p ∈ classes, p.id ≠ id) →
    d.define id r = .ok (o, next) → Hierarchy (o :: classes) next

namespace Hierarchy

variable {classes : List Opset} {r : Registry} {o : Opset}

/-- **Identities tell the classes apart.** -/
theorem nodup_ids (h : Hierarchy classes r) : (classes.map Opset.id).Nodup := by
  induction h with
  | start => decide
  | define _ _ hnew hdefine ih =>
    obtain ⟨rfl, -⟩ := Definition.eq_toOpset_of_define hdefine
    refine List.nodup_cons.mpr ⟨fun hmem => ?_, ih⟩
    obtain ⟨p, hp, hid⟩ := List.mem_map.mp hmem
    exact hnew p hp hid

/-- The classes as a family of operation sets. -/
def family (h : Hierarchy classes r) : OpsetFamily := .ofList classes h.nodup_ids

/-- **Every class has all hooks**, but for the root and those made by abstract definitions. -/
theorem mem_cases (h : Hierarchy classes r) (ho : o ∈ classes) :
    o.isConcrete = true ∨ o = .root ∨
      ∃ (d : Definition) (id : Nat), d.isAbstract = true ∧ d.base ∈ classes ∧
        o = d.toOpset id := by
  induction h with
  | start =>
    rcases List.mem_cons.mp ho with rfl | ho
    · exact .inr (.inl rfl)
    · exact .inl (Catalogue.isConcrete_of_mem ho)
  | @define classes _ _ d id _ _ hbase _ hdefine ih =>
    rcases List.mem_cons.mp ho with rfl | ho
    · obtain ⟨heq, habstract | hconcrete⟩ := Definition.eq_toOpset_of_define hdefine
      · exact .inr (.inr ⟨d, id, habstract, List.mem_cons_of_mem _ hbase, heq⟩)
      · exact .inl hconcrete
    · refine (ih ho).imp_right (Or.imp_right ?_)
      rintro ⟨d', id', habstract, hbase', heq⟩
      exact ⟨d', id', habstract, List.mem_cons_of_mem _ hbase', heq⟩

end Hierarchy

/-! ## Sessions -/

namespace Session

variable {s : Session} {sketch : ClassSketch}

/-- The classes of a session are a hierarchy, and no identity to come is taken. -/
structure Hierarchical (s : Session) : Prop where
  hierarchy : Hierarchy (s.classes.map Prod.snd) s.registry
  id_lt : ∀ o ∈ s.classes.map Prod.snd, o.id < Catalogue.all.length + 1 + s.nextSerial

theorem hierarchical_start : start.Hierarchical where
  hierarchy := .start
  id_lt := by decide

/-- One definition keeps the classes a hierarchy. -/
theorem Hierarchical.define (h : s.Hierarchical) (sketch : ClassSketch) :
    ((define sketch).run.run s).2.Hierarchical := by
  rcases run_define sketch s with ⟨_, serial, hle, hrun⟩ | ⟨base, o, registry, hbase, hdefine, hrun⟩
  · -- A definition that fails makes no class, but may have used up identities.
    rw [hrun]
    exact ⟨h.hierarchy, fun o ho => Nat.lt_of_lt_of_le (h.id_lt o ho) (Nat.add_le_add_left hle _)⟩
  · rw [hrun]
    have hmem : base ∈ s.classes.map Prod.snd := List.mem_map_of_mem (Entries.mem_of_lookup hbase)
    have hnew : ∀ p ∈ s.classes.map Prod.snd, p.id ≠ Catalogue.all.length + 1 + s.nextSerial :=
      fun p hp => Nat.ne_of_lt (h.id_lt p hp)
    refine ⟨h.hierarchy.define hmem hnew hdefine, fun p hp => ?_⟩
    rcases List.mem_cons.mp hp with rfl | hp
    · obtain ⟨heq, -⟩ := Definition.eq_toOpset_of_define hdefine
      rw [heq]
      exact Nat.lt_succ_self _
    · exact Nat.lt_succ_of_lt (h.id_lt p hp)

theorem Hierarchical.runStep (h : s.Hierarchical) {step : Step}
    (hcall : step.call = .define sketch) : ((runStep step).run.run s).2.Hierarchical := by
  obtain ⟨named, hnamed⟩ := exists_named_runStep hcall s
  rw [hnamed]
  exact ⟨(h.define sketch).hierarchy, (h.define sketch).id_lt⟩

/-- **Definitions in a session keep its classes a hierarchy.** -/
theorem Hierarchical.runSteps {steps : List Step} (h : s.Hierarchical)
    (hsteps : ∀ step ∈ steps, ∃ sketch, step.call = .define sketch) :
    ((runSteps steps).run s).2.Hierarchical := by
  induction steps generalizing s with
  | nil => exact h
  | cons step steps ih =>
    obtain ⟨⟨sketch, hcall⟩, hrest⟩ := List.forall_mem_cons.mp hsteps
    exact ih (h.runStep hcall) hrest

end Session

end FuzzyLogic
