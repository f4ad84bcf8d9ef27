import FuzzyLogic.Proofs.Entries
import FuzzyLogic.Proofs.Outcome
import FuzzyLogic.Proofs.Session.Definition

/-!
# Proofs/Opset/History — the registry after a history of definitions

A registry comes about by definitions, each of which may fail.  What one of them can do is said once,
by `after_cases`: nothing, or it puts a class with all hooks under the lower case of its name, where
nothing was or a class of the same qualified name.  What holds after every history follows by
induction on it.

Sessions start with such a registry, and the definitions in them continue its history
(`exists_history_of_runSteps`).
-/

namespace FuzzyLogic

namespace Registry

variable {r next : Registry} {key name : String} {o : Opset}

/-! ## Reading and writing -/

theorem put_eq (r : Registry) (key : String) (o : Opset) :
    r.put key o = ⟨Entries.put key o r.entries⟩ := by
  unfold put Entries.put find?
  split <;> rfl

theorem find?_put : (r.put key o).find? name = if name = key then some o else r.find? name := by
  rw [put_eq]
  exact Entries.lookup_put

/-- A class is registered exactly where nothing was or a class of the same qualified name. -/
theorem register_eq_ok_iff : r.register o = .ok next ↔
    (∀ holder, r.find? (Text.lower o.name) = some holder → holder.qualified = o.qualified) ∧
      next = r.put (Text.lower o.name) o := by
  unfold register
  dsimp only
  cases hfind : r.find? (Text.lower o.name) with
  | none => simp [eq_comm]
  | some holder =>
    dsimp only
    split
    case isTrue h => simp [h, eq_comm]
    case isFalse h => simp [h]

theorem require_eq_ok_iff : r.require name = .ok o ↔ r.get? name = some o := by
  unfold require
  cases r.get? name <;> simp

theorem require_eq_error_iff {fault : Fault} : r.require name = .error fault ↔
    r.get? name = none ∧ fault = .unknownOpset name r.names := by
  unfold require
  cases r.get? name <;> simp [eq_comm]

end Registry

namespace Definition

variable {d : Definition} {id : Nat} {r next : Registry} {o : Opset}

theorem define_of_abstract (h : d.isAbstract = true) : d.define id r = .ok (d.toOpset id, r) := by
  rw [define, if_pos h]

theorem define_of_incomplete (habstract : d.isAbstract = false)
    (h : (d.toOpset id).isConcrete = false) :
    d.define id r = .error (.missingHooks d.className (missingHooks (d.toOpset id))) := by
  have hmissing : missingHooks (d.toOpset id) ≠ [] := fun hnil => by
    rw [missingHooks_eq_nil_iff.mp hnil] at h
    exact nomatch h
  simp only [define, habstract, Bool.false_eq_true, if_false,
    List.isEmpty_eq_false_iff.mpr hmissing]
  rfl

theorem define_of_concrete (habstract : d.isAbstract = false)
    (h : (d.toOpset id).isConcrete = true) :
    d.define id r = if d.isRegistered then (r.register (d.toOpset id)).map (d.toOpset id, ·)
      else .ok (d.toOpset id, r) := by
  simp [define, habstract, missingHooks_eq_nil_iff.mpr h]

/-- A definition that is neither abstract nor kept out, and succeeds, has registered its class. -/
theorem register_of_define (h : d.define id r = .ok (o, next)) (habstract : d.isAbstract = false)
    (hregistered : d.isRegistered = true) :
    o = d.toOpset id ∧ o.isConcrete = true ∧ r.register o = .ok next := by
  cases hconcrete : (d.toOpset id).isConcrete with
  | false =>
    rw [define_of_incomplete habstract hconcrete] at h
    exact nomatch h
  | true =>
    rw [define_of_concrete habstract hconcrete, hregistered, if_pos rfl] at h
    obtain ⟨next', hregister, heq⟩ := Outcome.map_eq_ok.mp h
    obtain ⟨rfl, rfl⟩ := Prod.mk.inj heq
    exact ⟨rfl, hconcrete, hregister⟩

end Definition

namespace Registry

variable {r next : Registry} {d : Definition} {id : Nat} {key name : String} {o holder : Opset}

/-! ## One definition -/

/-- The registry before any definition. -/
def empty : Registry := ⟨[]⟩

/-- The registry after a definition, which may fail. -/
def after (r : Registry) (d : Definition) (id : Nat) : Registry :=
  match d.define id r with
  | .ok (_, next) => next
  | .error _ => r

theorem after_of_ok (h : d.define id r = .ok (o, next)) : r.after d id = next := by
  rw [after, h]

theorem after_of_error {fault : Fault} (h : d.define id r = .error fault) : r.after d id = r := by
  rw [after, h]

theorem after_of_abstract (h : d.isAbstract = true) : r.after d id = r :=
  after_of_ok (Definition.define_of_abstract h)

theorem after_of_unregistered (h : d.isRegistered = false) : r.after d id = r := by
  cases habstract : d.isAbstract with
  | true => exact after_of_abstract habstract
  | false =>
    cases hconcrete : (d.toOpset id).isConcrete with
    | false => exact after_of_error (Definition.define_of_incomplete habstract hconcrete)
    | true =>
      rw [after, Definition.define_of_concrete habstract hconcrete, h]
      rfl

/-- **All that a definition can do to the registry**: nothing, or to put a class with all hooks under
the lower case of its name, where nothing was or a class of the same qualified name. -/
theorem after_cases (r : Registry) (d : Definition) (id : Nat) :
    r.after d id = r ∨ (d.toOpset id).isConcrete = true ∧
      (∀ holder, r.find? (Text.lower (d.toOpset id).name) = some holder →
        holder.qualified = (d.toOpset id).qualified) ∧
      r.after d id = r.put (Text.lower (d.toOpset id).name) (d.toOpset id) := by
  cases habstract : d.isAbstract with
  | true => exact .inl (after_of_abstract habstract)
  | false =>
    cases hregistered : d.isRegistered with
    | false => exact .inl (after_of_unregistered hregistered)
    | true =>
      cases hdefine : d.define id r with
      | error fault => exact .inl (after_of_error hdefine)
      | ok result =>
        obtain ⟨o, next⟩ := result
        obtain ⟨rfl, hconcrete, hregister⟩ :=
          Definition.register_of_define hdefine habstract hregistered
        obtain ⟨hfree, hput⟩ := register_eq_ok_iff.mp hregister
        exact .inr ⟨hconcrete, hfree, (after_of_ok hdefine).trans hput⟩

/-- Where something is found there is something after a definition: the same, or the class defined,
of the same qualified name. -/
theorem find?_after (d : Definition) (id : Nat) (h : r.find? key = some holder) :
    ∃ next, (r.after d id).find? key = some next ∧
      (next = holder ∨ next = d.toOpset id ∧ next.qualified = holder.qualified) := by
  rcases after_cases r d id with heq | ⟨-, hfree, heq⟩
  · exact ⟨holder, by rw [heq, h], .inl rfl⟩
  · rw [heq, find?_put]
    by_cases hkey : key = Text.lower (d.toOpset id).name
    · subst hkey
      exact ⟨d.toOpset id, if_pos rfl, .inr ⟨rfl, (hfree holder h).symm⟩⟩
    · exact ⟨holder, by rw [if_neg hkey, h], .inl rfl⟩

/-- A class that has been registered is found under its name. -/
theorem get?_of_define (h : d.define id r = .ok (o, next)) (habstract : d.isAbstract = false)
    (hregistered : d.isRegistered = true) : next.get? o.name = some o := by
  obtain ⟨-, -, hregister⟩ := Definition.register_of_define h habstract hregistered
  obtain ⟨-, rfl⟩ := register_eq_ok_iff.mp hregister
  rw [get?, find?_put, if_pos rfl]

/-! ## Histories -/

/-- The registry after definitions in turn, each of which may fail; beside each stands the identity
of the class it makes. -/
def afterAll (r : Registry) (history : List (Definition × Nat)) : Registry :=
  history.foldl (fun r e => r.after e.1 e.2) r

theorem afterAll_append (history further : List (Definition × Nat)) :
    r.afterAll (history ++ further) = (r.afterAll history).afterAll further :=
  List.foldl_append

/-- Where something is found there is, after any history, something of the same qualified name. -/
theorem find?_afterAll {history : List (Definition × Nat)} (h : r.find? key = some holder) :
    ∃ next, (r.afterAll history).find? key = some next ∧ next.qualified = holder.qualified := by
  induction history generalizing r holder with
  | nil => exact ⟨holder, h, rfl⟩
  | cons e history ih =>
    obtain ⟨next, hnext, hstep⟩ := find?_after e.1 e.2 h
    have hqualified : next.qualified = holder.qualified :=
      hstep.elim (congrArg Opset.qualified) And.right
    obtain ⟨last, hlast, hsame⟩ := ih hnext
    exact ⟨last, hlast, hsame.trans hqualified⟩

/-- Every class is there once, has all hooks, and is filed under the lower case of its name. -/
structure Filed (r : Registry) : Prop where
  nodup_keys : (r.entries.map Prod.fst).Nodup
  isConcrete : ∀ e ∈ r.entries, e.2.isConcrete = true
  key_eq : ∀ e ∈ r.entries, e.1 = Text.lower e.2.name

theorem filed_empty : empty.Filed := ⟨.nil, nofun, nofun⟩

/-- One definition keeps the registry filed. -/
theorem Filed.after (hr : r.Filed) (d : Definition) (id : Nat) : (r.after d id).Filed := by
  rcases after_cases r d id with heq | ⟨hconcrete, -, heq⟩
  · rwa [heq]
  · rw [heq, put_eq]
    refine ⟨Entries.nodup_put hr.nodup_keys, fun e he => ?_, fun e he => ?_⟩
    · rcases Entries.mem_put he with rfl | he
      · exact hconcrete
      · exact hr.isConcrete e he
    · rcases Entries.mem_put he with rfl | he
      · rfl
      · exact hr.key_eq e he

/-- Every history keeps the registry filed. -/
theorem Filed.afterAll (hr : r.Filed) (history : List (Definition × Nat)) :
    (r.afterAll history).Filed := by
  induction history generalizing r with
  | nil => exact hr
  | cons e history ih => exact ih (hr.after e.1 e.2)

/-- What is under the lower case of a name is found under the name. -/
theorem Filed.get?_eq_some_iff (hr : r.Filed) :
    r.get? name = some o ↔ (Text.lower name, o) ∈ r.entries :=
  Entries.lookup_eq_some_iff_mem hr.nodup_keys

end Registry

/-! ## The catalogue -/

namespace Definition

/-- The definition that makes a class anew, without a base. -/
def ofOpset (o : Opset) : Definition where
  className := o.className
  home := o.home
  base := .root
  negationHook := o.negationHook
  disjunctionHook := o.disjunctionHook
  conjunctionHook := o.conjunctionHook
  name := some o.name
  doc := o.doc
  differentiable := some o.differentiable
  formulas := some o.formulas
  isAbstract := false
  isRegistered := true

theorem orElse_missing {α : Type} (hook : Hook α) : hook.orElse .missing = hook := by
  cases hook <;> rfl

theorem toOpset_ofOpset (o : Opset) : (ofOpset o).toOpset o.id = o := by
  simp [toOpset, ofOpset, Opset.root, orElse_missing]

end Definition

namespace Registry

variable {r : Registry} {o : Opset}

theorem after_ofOpset (hconcrete : o.isConcrete = true) (hlower : Text.lower o.name = o.name)
    (hnew : r.find? o.name = none) :
    r.after (.ofOpset o) o.id = ⟨r.entries ++ [(o.name, o)]⟩ := by
  have hregister : r.register o = .ok (r.put o.name o) := by
    rw [register_eq_ok_iff, hlower, hnew]
    exact ⟨nofun, rfl⟩
  have hdefine : (Definition.ofOpset o).define o.id r = .ok (o, r.put o.name o) := by
    rw [Definition.define_of_concrete rfl (by rwa [Definition.toOpset_ofOpset]),
      Definition.toOpset_ofOpset, hregister]
    rfl
  rw [after_of_ok hdefine, put, hnew]
  rfl

/-- Classes under new names are registered in order. -/
theorem afterAll_ofOpset {opsets : List Opset} (hconcrete : ∀ o ∈ opsets, o.isConcrete = true)
    (hlower : ∀ o ∈ opsets, Text.lower o.name = o.name) (hnew : ∀ o ∈ opsets, r.find? o.name = none)
    (hnodup : (opsets.map (·.name)).Nodup) :
    r.afterAll (opsets.map fun o => (.ofOpset o, o.id)) =
      ⟨r.entries ++ opsets.map fun o => (o.name, o)⟩ := by
  induction opsets generalizing r with
  | nil => simp [afterAll]
  | cons o opsets ih =>
    obtain ⟨hconcrete₁, hconcrete⟩ := List.forall_mem_cons.mp hconcrete
    obtain ⟨hlower₁, hlower⟩ := List.forall_mem_cons.mp hlower
    obtain ⟨hnew₁, hnew⟩ := List.forall_mem_cons.mp hnew
    obtain ⟨hfresh, hnodup⟩ := List.nodup_cons.mp hnodup
    have hstep : r.afterAll ((o :: opsets).map fun o => (.ofOpset o, o.id)) =
        (⟨r.entries ++ [(o.name, o)]⟩ : Registry).afterAll
          (opsets.map fun o => (.ofOpset o, o.id)) :=
      congrArg (fun r : Registry => r.afterAll (opsets.map fun o => (.ofOpset o, o.id)))
        (after_ofOpset hconcrete₁ hlower₁ hnew₁)
    rw [hstep, ih hconcrete hlower (fun p hp => ?_) hnodup]
    · simp
    · have hne : p.name ≠ o.name := fun h => hfresh (List.mem_map.mpr ⟨p, hp, h⟩)
      have hp := hnew p hp
      simp only [find?] at hp ⊢
      rw [List.lookup_append, hp]
      simp [List.lookup_cons, beq_eq_false_iff_ne.mpr hne]

/-- The catalogue is the registry after the definitions of its classes. -/
theorem catalogue_eq_afterAll :
    catalogue = empty.afterAll (Catalogue.all.map fun o => (.ofOpset o, o.id)) := by
  rw [afterAll_ofOpset (fun o => Catalogue.isConcrete_of_mem) (by decide +kernel)
    (fun _ _ => rfl) (by decide +kernel)]
  rfl

/-! ## Sessions -/

/-- **Definitions in a session continue the history of its registry.** -/
theorem exists_history_of_runSteps {steps : List Session.Step}
    (h : ∀ step ∈ steps, ∃ sketch, step.call = .define sketch) (s : Session) :
    ∃ history, ((Session.runSteps steps).run s).2.registry = s.registry.afterAll history := by
  induction steps generalizing s with
  | nil => exact ⟨[], rfl⟩
  | cons step steps ih =>
    obtain ⟨⟨sketch, hcall⟩, hrest⟩ := List.forall_mem_cons.mp h
    obtain ⟨history, hhistory⟩ := ih hrest ((Session.runStep step).run.run s).2
    have hrun : ((Session.runSteps (step :: steps)).run s).2 =
        ((Session.runSteps steps).run ((Session.runStep step).run.run s).2).2 := rfl
    rw [hrun, hhistory, Session.registry_runStep hcall]
    rcases Session.define_cases sketch s with
      ⟨fault, s', hdefine, hsame⟩ | ⟨base, id, o, s', hdefine, hrun⟩
    · exact ⟨history, by rw [hdefine, hsame]⟩
    · refine ⟨(sketch.toDefinition base, id) :: history, ?_⟩
      rw [hrun, ← after_of_ok hdefine]
      rfl

/-- A definition that fails in a session leaves the registry as it is. -/
theorem registry_of_failed_define {sketch : ClassSketch} {s : Session} {fault : Fault}
    (h : ((Session.define sketch).run.run s).1 = .error fault) :
    ((Session.define sketch).run.run s).2.registry = s.registry := by
  rcases Session.define_cases sketch s with
    ⟨fault, s', hdefine, hsame⟩ | ⟨base, id, o, s', -, hrun⟩
  · rw [hdefine, hsame]
  · rw [hrun] at h
    exact nomatch h

/-- **The registry after any history of definitions**, of whatever bases, hooks, names and settings,
and whether they succeed or fail:

* a definition that fails, is abstract or asks not to be registered leaves it exactly as it is, also
  in a session; one that succeeds, is not abstract and does not ask so is found under its name;
* what is under a key stays there, but that a definition may put the class it makes in its place,
  which then has the same qualified name; so over any further history the qualified name stays;
* every class in it is there once, has all hooks, and is filed under the lower case of its name;
* a name in whatever case finds what is under its lower case; requiring it gives the same, and fails
  exactly where there is nothing, with a key error that lists the names;
* the catalogue is such a registry, and so is what a session of definitions makes of it. -/
theorem registry_after_history {r : Registry} {history : List (Definition × Nat)}
    (hr : r = empty.afterAll history) :
    ((∀ d id, d.isAbstract = true ∨ d.isRegistered = false ∨
        (∃ fault, d.define id r = .error fault) → r.after d id = r) ∧
      (∀ d id o next, d.define id r = .ok (o, next) → d.isAbstract = false →
        d.isRegistered = true → next = r.after d id ∧ next.get? o.name = some o) ∧
      ∀ sketch s fault, ((Session.define sketch).run.run s).1 = .error fault →
        ((Session.define sketch).run.run s).2.registry = s.registry) ∧
    ((∀ d id key holder, r.find? key = some holder →
        ∃ next, (r.after d id).find? key = some next ∧
          (next = holder ∨ next = d.toOpset id ∧ next.qualified = holder.qualified)) ∧
      ∀ further key holder, r.find? key = some holder →
        ∃ next, (empty.afterAll (history ++ further)).find? key = some next ∧
          next.qualified = holder.qualified) ∧
    ((r.entries.map Prod.fst).Nodup ∧
      ∀ key o, (key, o) ∈ r.entries → o.isConcrete = true ∧ key = Text.lower o.name) ∧
    (∀ name,
      (∀ o, r.get? name = some o ↔ (Text.lower name, o) ∈ r.entries) ∧
      (∀ o, r.require name = .ok o ↔ (Text.lower name, o) ∈ r.entries) ∧
      (∀ fault, r.require name = .error fault ↔
        (∀ o, (Text.lower name, o) ∉ r.entries) ∧ fault = .unknownOpset name r.names) ∧
      ∀ fault, r.require name = .error fault → fault.kind = .keyError) ∧
    (∃ history, catalogue = empty.afterAll history) ∧
    ∀ steps : List Session.Step, (∀ step ∈ steps, ∃ sketch, step.call = .define sketch) →
      ∃ history, ((Session.runSteps steps).run Session.start).2.registry =
        empty.afterAll history := by
  have hfiled : r.Filed := hr ▸ filed_empty.afterAll history
  refine ⟨⟨fun d id h => ?_, fun d id o next h habstract hregistered => ?_,
      fun sketch s fault h => registry_of_failed_define h⟩,
    ⟨fun d id key holder h => find?_after d id h, fun further key holder h => ?_⟩,
    ⟨hfiled.nodup_keys, fun key o h => ⟨hfiled.isConcrete _ h, hfiled.key_eq _ h⟩⟩,
    fun name => ⟨fun o => hfiled.get?_eq_some_iff, fun o => ?_, fun fault => ?_, fun fault h => ?_⟩,
    ⟨_, catalogue_eq_afterAll⟩, fun steps h => ?_⟩
  · rcases h with habstract | hregistered | ⟨fault, hfault⟩
    · exact after_of_abstract habstract
    · exact after_of_unregistered hregistered
    · exact after_of_error hfault
  · exact ⟨(after_of_ok h).symm, get?_of_define h habstract hregistered⟩
  · rw [afterAll_append, ← hr]
    exact find?_afterAll h
  · rw [require_eq_ok_iff, hfiled.get?_eq_some_iff]
  · rw [require_eq_error_iff, Option.eq_none_iff_forall_ne_some]
    exact and_congr_left' (forall_congr' fun o => not_congr hfiled.get?_eq_some_iff)
  · obtain ⟨-, rfl⟩ := require_eq_error_iff.mp h
    rfl
  · obtain ⟨history, hhistory⟩ := exists_history_of_runSteps h Session.start
    refine ⟨(Catalogue.all.map fun o => (.ofOpset o, o.id)) ++ history, ?_⟩
    rw [hhistory, afterAll_append, ← catalogue_eq_afterAll]
    rfl

/-- The catalogue, in which a class of another home does not get a name that is taken. -/
theorem catalogue_keeps_yager1 :
    catalogue.after { Definition.ofOpset Catalogue.yager1 with home := "custom" } 6 = catalogue ∧
    catalogue.require "Yager1" = .ok Catalogue.yager1 ∧
    (∃ fault, catalogue.require "yager" = .error fault ∧ fault.kind = .keyError) ∧
    ∀ further, ∃ next, (catalogue.afterAll further).find? "yager1" = some next ∧
      next.qualified = "fuzzy_systems.opset.catalogue.Yager1" := by
  obtain ⟨⟨hkept, -, -⟩, ⟨-, hstays⟩, -, hread, -⟩ := registry_after_history catalogue_eq_afterAll
  obtain ⟨-, hfound, -, -⟩ := hread "Yager1"
  obtain ⟨-, -, hnothing, hkey⟩ := hread "yager"
  have hlower : Text.lower "Yager1" = "yager1" := by decide +kernel
  have htaken : ∃ fault, Definition.define
      { Definition.ofOpset Catalogue.yager1 with home := "custom" } 6 catalogue = .error fault := by
    have hfind : catalogue.find? (Text.lower "yager1") = some Catalogue.yager1 := by
      rw [show Text.lower "yager1" = "yager1" by decide +kernel]
      rfl
    refine Outcome.exists_error fun ⟨o, next⟩ h => ?_
    obtain ⟨rfl, -, hregister⟩ := Definition.register_of_define h rfl rfl
    have hqualified := (register_eq_ok_iff.mp hregister).1 _ hfind
    exact absurd hqualified (by decide)
  have hnew : Text.lower "yager" ∉ catalogue.entries.map Prod.fst := by decide +kernel
  have hmissing : catalogue.require "yager" = .error (.unknownOpset "yager" catalogue.names) :=
    (hnothing _).mpr ⟨fun o ho => hnew (List.mem_map_of_mem ho), rfl⟩
  refine ⟨hkept _ 6 (.inr (.inr htaken)), (hfound _).mpr ?_, ⟨_, hmissing, hkey _ hmissing⟩,
    fun further => ?_⟩
  · rw [hlower]
    exact List.mem_cons_self
  · have hstays := hstays further "yager1" Catalogue.yager1 rfl
    rwa [afterAll_append, ← catalogue_eq_afterAll] at hstays

end Registry

end FuzzyLogic
