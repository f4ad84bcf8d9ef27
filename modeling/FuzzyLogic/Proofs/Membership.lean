import FuzzyLogic.Membership
import FuzzyLogic.Proofs.Outcome

/-!
# Proofs/Membership — what the constructions of degrees make

A degree is made of a number by validation, by offering or by fitting.  Validation looks at the
nearest double alone (`Membership.of_eq`), and the other two come down to it.  A degree is
`Membership.Validated` if it comes out of one of the three; these are **the doubles in `[0, 1]`**
(`Membership.validated_iff`).
-/

namespace FuzzyLogic.Membership

variable {raw : Number} {x : Binary64} {m : Membership} {o : Opset}

theorem of_eq (h : raw.toBinary64 = .ok x) :
    of raw o = if x.isDegree then .ok ⟨.float x, o⟩ else .error (.outOfRange x o.className) := by
  rw [of, h]
  rfl

theorem of_of_isDegree (h : x.isDegree = true) (o : Opset) :
    of (.float x) o = .ok ⟨.float x, o⟩ := (of_eq rfl).trans (if_pos h)

theorem of_of_not_isDegree (h : x.isDegree = false) (o : Opset) :
    of (.float x) o = .error (.outOfRange x o.className) :=
  (of_eq rfl).trans (if_neg (Bool.eq_false_iff.mp h))

/-- A validated degree is a double in `[0, 1]` and carries the operation set it was made for. -/
theorem of_eq_ok (h : of raw o = .ok m) :
    ∃ x : Binary64, x.isDegree = true ∧ m = ⟨.float x, o⟩ := by
  obtain ⟨x, -, hx⟩ := Outcome.bind_eq_ok.mp h
  split at hx
  case isTrue hdeg => exact ⟨x, hdeg, (Except.ok.inj hx).symm⟩
  case isFalse => cases hx

/-- What is offered is validated. -/
theorem of_of_of? (h : of? raw o = .ok (some m)) : of raw o = .ok m := by
  unfold of? at h
  split at h
  case isTrue =>
    obtain ⟨n, hn, hm⟩ := Outcome.map_eq_ok.mp h
    rwa [← Option.some.inj hm]
  case isFalse => cases h

/-- What is fitted is validated once it is clamped. -/
theorem exists_of_of_fit (h : fit raw o = .ok m) :
    ∃ x : Binary64, of (.float (clamped x)) o = .ok m := by
  obtain ⟨x, -, hx⟩ := Outcome.bind_eq_ok.mp h
  cases hnan : x.isNaN with
  | true =>
    rw [if_pos hnan] at hx
    cases hx
  | false =>
    rw [hnan] at hx
    exact ⟨x, hx⟩

/-- A degree that comes out of one of the three constructions. -/
inductive Validated (m : Membership) : Prop
  | of {raw : Number} : Membership.of raw m.opset = .ok m → Validated m
  | offered {raw : Number} : of? raw m.opset = .ok (some m) → Validated m
  | fitted {raw : Number} : fit raw m.opset = .ok m → Validated m

/-- **What comes out of the constructions** are the doubles in `[0, 1]`. -/
theorem validated_iff : m.Validated ↔ ∃ x, m.raw = .float x ∧ x.isDegree = true := by
  have hof : ∀ {raw}, Membership.of raw m.opset = .ok m →
      ∃ x, m.raw = .float x ∧ x.isDegree = true := by
    intro raw h
    obtain ⟨x, hx, hm⟩ := of_eq_ok h
    exact ⟨x, congrArg Membership.raw hm, hx⟩
  constructor
  · rintro (⟨h⟩ | ⟨h⟩ | ⟨h⟩)
    · exact hof h
    · exact hof (of_of_of? h)
    · obtain ⟨x, hx⟩ := exists_of_of_fit h
      exact hof hx
  · rintro ⟨x, hm, hx⟩
    obtain ⟨_, o⟩ := m
    obtain rfl := hm
    exact .of (of_of_isDegree hx o)

theorem validated_of_isDegree (h : x.isDegree = true) (o : Opset) :
    Validated ⟨.float x, o⟩ := validated_iff.mpr ⟨x, rfl, h⟩

end FuzzyLogic.Membership
