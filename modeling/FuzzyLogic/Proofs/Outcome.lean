import FuzzyLogic.Fault

/-!
# Proofs/Outcome — what a composed outcome says about its parts

A computation that may fail is composed by `bind`, `map` and `mapError`.  These lemmas read off a
composed outcome what the parts did, so that no proof has to unfold the composition.
-/

namespace FuzzyLogic

namespace Outcome

variable {ε δ α β : Type}

theorem bind_eq_ok {r : Except ε α} {k : α → Except ε β} {b : β} :
    r >>= k = .ok b ↔ ∃ a, r = .ok a ∧ k a = .ok b := by
  cases r <;> simp [bind, Except.bind]

theorem bind_eq_error {r : Except ε α} {k : α → Except ε β} {e : ε} :
    r >>= k = .error e ↔ r = .error e ∨ ∃ a, r = .ok a ∧ k a = .error e := by
  cases r <;> simp [bind, Except.bind]

theorem map_eq_ok {r : Except ε α} {f : α → β} {b : β} :
    r.map f = .ok b ↔ ∃ a, r = .ok a ∧ f a = b := by
  cases r <;> simp [Except.map]

theorem map_eq_error {r : Except ε α} {f : α → β} {e : ε} : r.map f = .error e ↔ r = .error e := by
  cases r <;> simp [Except.map]

theorem mapError_eq_ok {r : Except ε α} {f : ε → δ} {a : α} : r.mapError f = .ok a ↔ r = .ok a := by
  cases r with
  | error e => exact iff_of_false nofun nofun
  | ok b =>
    constructor
    · intro h
      exact congrArg Except.ok (Except.ok.inj h)
    · intro h
      exact congrArg Except.ok (Except.ok.inj h)

theorem mapError_eq_error {r : Except ε α} {f : ε → δ} {d : δ} :
    r.mapError f = .error d ↔ ∃ e, r = .error e ∧ f e = d := by
  cases r with
  | error e =>
    constructor
    · intro h
      exact ⟨e, rfl, Except.error.inj h⟩
    · rintro ⟨e', h, rfl⟩
      exact congrArg (fun i => Except.error (f i)) (Except.error.inj h)
  | ok b => exact iff_of_false nofun nofun

/-- All elements of a list are mapped exactly if each of them is. -/
theorem exists_mapM_iff {f : α → Except ε β} {l : List α} :
    (∃ bs, l.mapM f = .ok bs) ↔ ∀ a ∈ l, ∃ b, f a = .ok b := by
  induction l with
  | nil => exact iff_of_true ⟨[], rfl⟩ nofun
  | cons a l ih =>
    rw [List.forall_mem_cons, ← ih]
    simp only [List.mapM_cons, bind_eq_ok]
    constructor
    · rintro ⟨_, b, hb, bs, hbs, -⟩
      exact ⟨⟨b, hb⟩, bs, hbs⟩
    · rintro ⟨⟨b, hb⟩, bs, hbs⟩
      exact ⟨b :: bs, b, hb, bs, hbs, rfl⟩

/-- What comes after a check succeeds exactly if the check passes and it does alone. -/
theorem exists_check_bind {r : Except ε Unit} {s : Except ε α} :
    (∃ a, (r >>= fun _ => s) = .ok a) ↔ r = .ok () ∧ ∃ a, s = .ok a := by
  cases r with
  | error e => simp [bind, Except.bind]
  | ok u => simp [bind, Except.bind]

/-- A check of a list passes exactly if it does on every element. -/
theorem forM_eq_ok_iff {f : α → Except ε Unit} {l : List α} :
    l.forM f = .ok () ↔ ∀ a ∈ l, f a = .ok () := by
  induction l with
  | nil => exact iff_of_true rfl nofun
  | cons a l ih =>
    rw [List.forall_mem_cons, ← ih]
    refine bind_eq_ok.trans ⟨?_, ?_⟩
    · rintro ⟨_, ha, hl⟩
      exact ⟨ha, hl⟩
    · rintro ⟨ha, hl⟩
      exact ⟨(), ha, hl⟩

/-- An outcome that is no success is a failure. -/
theorem exists_error {r : Except ε α} (h : ∀ a, r ≠ .ok a) : ∃ e, r = .error e := by
  cases r with
  | error e => exact ⟨e, rfl⟩
  | ok a => exact absurd rfl (h a)

end Outcome

end FuzzyLogic
