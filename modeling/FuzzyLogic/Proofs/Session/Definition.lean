import FuzzyLogic.Session.Call

/-!
# Proofs/Session/Definition — what a definition does to a session

A run is read through its outcome and the session it leaves; `run_bind_of_ok` and
`run_bind_of_error` take it apart at its binds.

A definition either fails, and does no more than to use up a serial, or adds the class to the classes
and leaves the registry that defining it makes (`run_define`).  Reporting and storing the class, as a
step does, changes no more than what is stored (`exists_named_runStep`).
-/

namespace FuzzyLogic

namespace Session

variable {α β : Type} {x : Run α} {k : α → Run β} {a : α} {fault : Fault} {s s' : Session}

/-! ## Runs -/

theorem run_bind_of_ok (h : x.run.run s = (.ok a, s')) :
    (x >>= k).run.run s = (k a).run.run s' := by
  change (do let r ← x.run; ExceptT.bindCont k r : StateM Session (Except Fault β)).run s = _
  rw [StateT.run_bind, h]
  rfl

theorem run_bind_of_error (h : x.run.run s = (.error fault, s')) :
    (x >>= k).run.run s = (.error fault, s') := by
  change (do let r ← x.run; ExceptT.bindCont k r : StateM Session (Except Fault β)).run s = _
  rw [StateT.run_bind, h]
  rfl

theorem run_get : (get : Run Session).run.run s = (.ok s, s) := rfl

theorem run_fresh :
    fresh.run.run s = (.ok s.nextSerial, { s with nextSerial := s.nextSerial + 1 }) := rfl

theorem run_pureRun {r : Except Fault α} : (pureRun r).run.run s = (r, s) := rfl

/-! ## Definitions -/

/-- Naming a class changes nothing. -/
theorem run_classNamed (name : String) (s : Session) :
    ∃ outcome, (classNamed name).run.run s = (outcome, s) := by
  rw [classNamed, run_bind_of_ok run_get]
  cases s.classes.lookup name with
  | some o => exact ⟨_, rfl⟩
  | none =>
    dsimp only
    split <;> exact ⟨_, rfl⟩

theorem lookup_of_classNamed {name : String} {o : Opset}
    (h : (classNamed name).run.run s = (.ok (.opset o), s')) : s.classes.lookup name = some o := by
  rw [classNamed, run_bind_of_ok run_get] at h
  cases hlookup : s.classes.lookup name with
  | some p =>
    rw [hlookup] at h
    cases h
    rfl
  | none =>
    rw [hlookup] at h
    dsimp only at h
    split at h <;> cases h

/-- **All that a definition does to a session**: it fails, and may use up a serial, or it makes a
class of the next identity, over a base that has a name. -/
theorem run_define (sketch : ClassSketch) (s : Session) :
    (∃ fault serial, s.nextSerial ≤ serial ∧
      (define sketch).run.run s = (.error fault, { s with nextSerial := serial })) ∨
    ∃ base o registry, s.classes.lookup sketch.base = some base ∧
      (sketch.toDefinition base).define (Catalogue.all.length + 1 + s.nextSerial) s.registry =
        .ok (o, registry) ∧
      (define sketch).run.run s = (.ok (.opset o),
        { s with
          registry := registry
          classes := (o.className, o) :: s.classes
          nextSerial := s.nextSerial + 1 }) := by
  obtain ⟨outcome, hclass⟩ := run_classNamed sketch.base s
  cases outcome with
  | error fault => exact .inl ⟨fault, s.nextSerial, Nat.le_refl _, run_bind_of_error hclass⟩
  | ok v =>
    rw [define, run_bind_of_ok hclass]
    cases v with
    | opset base =>
      dsimp only
      rw [run_bind_of_ok run_fresh, run_bind_of_ok run_get]
      cases hdefine : (sketch.toDefinition base).define (Catalogue.all.length + 1 + s.nextSerial)
          s.registry with
      | ok result =>
        rw [run_bind_of_ok run_pureRun]
        exact .inr ⟨base, result.1, result.2, lookup_of_classNamed hclass, hdefine, rfl⟩
      | error fault =>
        rw [run_bind_of_error run_pureRun]
        exact .inl ⟨fault, s.nextSerial + 1, Nat.le_succ _, rfl⟩
    | _ => exact .inl ⟨_, s.nextSerial, Nat.le_refl _, rfl⟩

/-- **A definition fails and leaves the registry as it is, or leaves the registry that it makes.** -/
theorem define_cases (sketch : ClassSketch) (s : Session) :
    (∃ fault s', (define sketch).run.run s = (.error fault, s') ∧ s'.registry = s.registry) ∨
    ∃ base id o s', (sketch.toDefinition base).define id s.registry = .ok (o, s'.registry) ∧
      (define sketch).run.run s = (.ok (.opset o), s') := by
  rcases run_define sketch s with ⟨fault, _, -, hrun⟩ | ⟨base, o, _, -, hdefine, hrun⟩
  · exact .inl ⟨fault, _, hrun, rfl⟩
  · exact .inr ⟨base, _, o, _, hdefine, hrun⟩

/-- A step that defines a class does what the definition does, and may store the class. -/
theorem exists_named_runStep {step : Step} {sketch : ClassSketch} (h : step.call = .define sketch)
    (s : Session) :
    ∃ named, ((runStep step).run.run s).2 =
      { ((define sketch).run.run s).2 with named := named } := by
  obtain ⟨call, name⟩ := step
  obtain rfl : call = .define sketch := h
  obtain ⟨outcome, s', hs⟩ : ∃ outcome s', (define sketch).run.run s = (outcome, s') := ⟨_, _, rfl⟩
  rw [runStep, run, hs]
  cases outcome with
  | error fault =>
    rw [run_bind_of_error hs]
    exact ⟨s'.named, rfl⟩
  | ok v =>
    rw [run_bind_of_ok hs]
    cases hd : v.describe with
    | error fault =>
      rw [run_bind_of_error run_pureRun]
      exact ⟨s'.named, rfl⟩
    | ok d =>
      rw [run_bind_of_ok run_pureRun]
      cases name with
      | none => exact ⟨s'.named, rfl⟩
      | some name => exact ⟨(name, v) :: s'.named, rfl⟩

/-- A step that defines a class does no more to the registry than the definition. -/
theorem registry_runStep {step : Step} {sketch : ClassSketch} (h : step.call = .define sketch)
    (s : Session) :
    ((runStep step).run.run s).2.registry = ((define sketch).run.run s).2.registry := by
  obtain ⟨named, hnamed⟩ := exists_named_runStep h s
  rw [hnamed]

end Session

end FuzzyLogic
