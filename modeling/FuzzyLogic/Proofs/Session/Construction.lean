import FuzzyLogic.Proofs.Expr.OneOpset
import FuzzyLogic.Proofs.Number.Conversion
import FuzzyLogic.Proofs.Session.Following
import FuzzyLogic.Session.Operator

/-!
# Proofs/Session/Construction — three ways from a number to a degree

A degree is made of a number by validation, which refuses what it cannot take (`Membership.of`), by
offering, which then gives nothing (`Membership.of?`), or by fitting, which moves the number to the
nearer end of `[0, 1]` (`Membership.fit`).  Sessions make their objects so
(`Session.follows_tryConstruct`, `Session.follows_fit`).

Validation looks at the nearest double, offering at the number itself.  The two part where rounding
crosses a bound (`Membership.agree_iff`): what is rounded into `[0, 1]` is validated and not offered,
and what is beyond the doubles fails where nothing is offered.  Fitting asks for the nearest double
too, so that all is fitted but NaN and what is beyond the doubles (`Membership.exists_fit`).
-/

namespace FuzzyLogic

/-! ## What sessions do -/

/-- The objects of a degree that may be missing. -/
inductive Value.MayBeDegree : Option Membership → Value → Prop
  | nothing : MayBeDegree Option.none .none
  | degree {m : Membership} {v : Value} : IsDegree m v → MayBeDegree (some m) v

namespace Session

theorem follows_fit (raw : Number) (o : Opset) :
    Follows Value.IsDegree (fit (.number raw) (.opset o)) (Membership.fit raw o) := by
  refine (follows_pureRun raw.toBinary64).bind ?_
  rintro x _ rfl
  cases hx : x.isNaN with
  | true =>
    simp only [if_true]
    exact follows_throw _
  | false =>
    simp only [Bool.false_eq_true, if_false]
    exact follows_construct _ o

theorem follows_tryConstruct (raw : Number) (o : Opset) :
    Follows Value.MayBeDegree (tryConstruct (.number raw) (.opset o)) (Membership.of? raw o) := by
  -- between numbers, comparison in a session is comparison of numbers
  have horder : ∀ x y : Number, order .le (.number x) (.number y) = pure (x.le y) := by
    intro x y
    simp only [order, orderPlain, Value.number?, Comparison.onNumbers]
  rw [tryConstruct, Value.float, Value.float, horder, horder, Membership.of?, Membership.inRange]
  simp only [pure_bind]
  cases (Number.float .zero).le raw
  · exact follows_pure .nothing
  cases raw.le (.float .one)
  · exact follows_pure .nothing
  · simpa using (follows_construct raw o).map fun _ _ => .degree

end Session

namespace Membership

variable {raw raw' : Number} {o : Opset} {m m' : Membership} {x : Binary64} {p : Number.Point}

/-! ## Validation -/

theorem of_beyond (h : raw.Beyond) : of raw o = .error raw.tooLarge := by
  rw [of, h.toBinary64_eq]
  rfl

/-- **The numbers that are validated** are those in `[0, 1]` and those rounded into it. -/
theorem exists_of_iff : (∃ m, of raw o = .ok m) ↔ inRange raw = true ∨ raw.RoundsIn := by
  by_cases hbeyond : raw.Beyond
  · rw [of_beyond hbeyond]
    exact iff_of_false (by simp) hbeyond.outside
  obtain ⟨x, hx⟩ := Number.exists_toBinary64 hbeyond
  rw [of_eq hx, ← Number.isDegree_iff hx]
  cases x.isDegree <;> simp

/-- **The numbers that are refused as out of range** are all others but those beyond the doubles. -/
theorem exists_outOfRange_iff : (∃ x, of raw o = .error (.outOfRange x o.className)) ↔
    ¬ (inRange raw = true ∨ raw.RoundsIn) ∧ ¬ raw.Beyond := by
  by_cases hbeyond : raw.Beyond
  · rw [of_beyond hbeyond]
    refine iff_of_false ?_ fun h => h.2 hbeyond
    rintro ⟨x, hx⟩
    cases raw <;> cases hx
  obtain ⟨x, hx⟩ := Number.exists_toBinary64 hbeyond
  rw [of_eq hx, ← Number.isDegree_iff hx]
  cases x.isDegree <;> simp [hbeyond]

/-! ## Offering -/

/-- What lies in `[0, 1]` is offered as it is validated. -/
theorem exists_of?_of_inRange (h : inRange raw = true) :
    ∃ m, of raw o = .ok m ∧ of? raw o = .ok (some m) := by
  obtain ⟨m, hm⟩ := exists_of_iff.mpr (.inl h)
  refine ⟨m, hm, ?_⟩
  rw [of?, if_pos h, hm]
  rfl

theorem of?_of_not_inRange (h : inRange raw = false) : of? raw o = .ok none :=
  if_neg (Bool.eq_false_iff.mp h)

/-- Offering agrees with validation: a degree is offered where it is validated, and nothing where
the number is refused as out of range. -/
def Agree (raw : Number) (o : Opset) : Prop :=
  (∀ m, of? raw o = .ok (some m) ↔ of raw o = .ok m) ∧
    (of? raw o = .ok none ↔ ∃ x, of raw o = .error (.outOfRange x o.className))

/-- **Offering agrees with validation where rounding crosses no bound.** -/
theorem agree_iff : Agree raw o ↔ ¬ raw.RoundsIn ∧ ¬ raw.Beyond := by
  cases h : inRange raw with
  | true =>
    obtain ⟨m, hm, hoffer⟩ := exists_of?_of_inRange (o := o) h
    refine iff_of_true ⟨fun n => ?_, ?_⟩ ⟨fun hrounds => ?_, fun hbeyond => ?_⟩
    · simp [hm, hoffer]
    · simp [hm, hoffer]
    · exact Bool.noConfusion (h.symm.trans hrounds.not_inRange)
    · exact hbeyond.outside (.inl h)
  | false =>
    have hvalid : (∃ m, of raw o = .ok m) ↔ raw.RoundsIn := by simp [exists_of_iff, h]
    have hrefused : (∃ x, of raw o = .error (.outOfRange x o.className)) ↔
        ¬ raw.RoundsIn ∧ ¬ raw.Beyond := by simp [exists_outOfRange_iff, h]
    rw [Agree, of?_of_not_inRange h, hrefused, ← hvalid]
    constructor
    · exact fun hagree => hagree.2.mp rfl
    · exact fun hout => ⟨fun m => iff_of_false nofun fun hm => hout.1 ⟨m, hm⟩, iff_of_true rfl hout⟩

/-- **Offering agrees with validation except where rounding crosses a bound**: what is rounded into
`[0, 1]` is validated and not offered, and what is beyond the doubles is not offered and fails to be
validated.  Offering never fails and offers nothing that is not validated; validation ends in one of
these three ways.  Sessions make their objects in both ways as described. -/
theorem offered_iff_validated (raw : Number) (o : Opset) :
    (Agree raw o ↔ ¬ raw.RoundsIn ∧ ¬ raw.Beyond) ∧
    (raw.RoundsIn → of? raw o = .ok none ∧ ∃ m, of raw o = .ok m) ∧
    (raw.Beyond → of? raw o = .ok none ∧ of raw o = .error raw.tooLarge) ∧
    (∃ offer, of? raw o = .ok offer) ∧
    (∀ m, of? raw o = .ok (some m) → of raw o = .ok m) ∧
    ((∃ m, of raw o = .ok m) ∨ (∃ x, of raw o = .error (.outOfRange x o.className)) ∨
      raw.Beyond) ∧
    Session.Follows Value.MayBeDegree (Session.tryConstruct (.number raw) (.opset o)) (of? raw o) ∧
    Session.Follows Value.IsDegree (Session.construct (.number raw) (.opset o)) (of raw o) := by
  have hoffer : (∃ m, of raw o = .ok m ∧ of? raw o = .ok (some m)) ∨ of? raw o = .ok none := by
    cases h : inRange raw with
    | true => exact .inl (exists_of?_of_inRange h)
    | false => exact .inr (of?_of_not_inRange h)
  refine ⟨agree_iff, fun h => ?_, fun h => ?_, ?_, fun m hm => ?_, ?_,
    Session.follows_tryConstruct raw o, Session.follows_construct raw o⟩
  · exact ⟨of?_of_not_inRange h.not_inRange, exists_of_iff.mpr (.inr h)⟩
  · exact ⟨of?_of_not_inRange (Bool.eq_false_iff.mpr fun hin => h.outside (.inl hin)),
      of_beyond h⟩
  · rcases hoffer with ⟨m, -, hm⟩ | hnone
    · exact ⟨_, hm⟩
    · exact ⟨_, hnone⟩
  · rcases hoffer with ⟨n, hn, hsome⟩ | hnone
    · obtain rfl : m = n := by simpa [hm] using hsome
      exact hn
    · simp [hm] at hnone
  · rw [exists_of_iff, exists_outOfRange_iff]
    tauto

/-- The whole number one is offered as it is validated. -/
theorem one_is_offered : Agree (.int 1) Catalogue.hamacher1 := by
  have hin : inRange (.int 1) = true := (Number.inRange_exact rfl).mpr (by norm_num)
  refine (offered_iff_validated (.int 1) Catalogue.hamacher1).1.mpr ⟨fun h => ?_, fun h => ?_⟩
  · exact Bool.noConfusion (hin.symm.trans h.not_inRange)
  · exact h.outside (.inl hin)

/-- A fraction just above one is validated, as it is rounded to one, and not offered. -/
theorem just_above_one_is_not_offered :
    (∃ m, of (.ratio (1 + 1 / 2 ^ 60)) Catalogue.hamacher1 = .ok m) ∧
    of? (.ratio (1 + 1 / 2 ^ 60)) Catalogue.hamacher1 = .ok none := by
  have hrounds : (Number.ratio (1 + 1 / 2 ^ 60)).RoundsIn := ⟨_, rfl, .inr (by norm_num)⟩
  exact ⟨exists_of_iff.mpr (.inr hrounds), of?_of_not_inRange hrounds.not_inRange⟩

/-! ## Fitting -/

theorem fit_beyond (h : raw.Beyond) : fit raw o = .error raw.tooLarge := by
  rw [fit, h.toBinary64_eq]
  rfl

theorem fit_nan : fit (.float .nan) o = .error (.notANumber o.className) := rfl

/-- What is fitted is the clamped double. -/
theorem fit_eq (h : raw.toBinary64 = .ok x) (hx : x ≠ .nan) :
    fit raw o = .ok ⟨.float (clamped x), o⟩ := by
  have hnan : x.isNaN = false := by
    rcases x with _ | ⟨_ | _, m⟩
    · exact absurd rfl hx
    · rfl
    · rfl
  rw [fit, h]
  change (if x.isNaN then _ else _) = _
  rw [hnan, if_neg Bool.false_ne_true]
  exact if_pos (Binary64.isDegree_clamped hx)

/-- **Every number that is neither NaN nor beyond the doubles is fitted**, by the double nearest to
the closest point of `[0, 1]`. -/
theorem exists_fit (hnan : raw ≠ .float .nan) (h : ¬ raw.Beyond) :
    ∃ p x, raw.point? = some p ∧ fit raw o = .ok ⟨.float x, o⟩ ∧ x.isDegree = true ∧
      x.IsNearest p.closest := by
  obtain ⟨p, hp⟩ := Option.ne_none_iff_exists'.mp (mt Number.point?_eq_none_iff.mp hnan)
  obtain ⟨x, hx⟩ := Number.exists_toBinary64 h
  have hnearest := Number.isNearest_closest hp hx
  have hne : x ≠ .nan := by
    rintro rfl
    exact hnearest
  exact ⟨p, clamped x, hp, fit_eq hx hne, Binary64.isDegree_clamped hne, hnearest⟩

/-- What a fitted degree is. -/
theorem exists_of_fit (h : fit raw o = .ok m) :
    ∃ p x, raw.point? = some p ∧ m = ⟨.float x, o⟩ ∧ x.isDegree = true ∧
      x.IsNearest p.closest := by
  have hnan : raw ≠ .float .nan := by
    rintro rfl
    cases fit_nan.symm.trans h
  have hbeyond : ¬ raw.Beyond := fun hbeyond => by simp [fit_beyond hbeyond] at h
  obtain ⟨p, x, hp, hx, hdeg, hnearest⟩ := exists_fit (o := o) hnan hbeyond
  exact ⟨p, x, hp, (Except.ok.inj (hx.symm.trans h)).symm, hdeg, hnearest⟩

/-- **Fitting a fitted degree changes nothing.** -/
theorem fit_fit (h : fit raw o = .ok m) : fit m.raw o = .ok m := by
  obtain ⟨-, x, -, rfl, hdeg, -⟩ := exists_of_fit h
  rw [fit_eq rfl (Binary64.isDegree_iff.mp hdeg).1, Binary64.clamped_of_isDegree hdeg]

/-- **Larger numbers are fitted by larger degrees.** -/
theorem fit_mono (hle : raw.le raw' = true) (h : fit raw o = .ok m) (h' : fit raw' o = .ok m') :
    m.raw.le m'.raw = true := by
  obtain ⟨p, x, hp, rfl, hdeg, hx⟩ := exists_of_fit h
  obtain ⟨p', x', hp', rfl, hdeg', hx'⟩ := exists_of_fit h'
  rw [Number.le_float hx.ne_nan hx'.ne_nan, Binary64.le_iff_value hx.ne_nan hx'.ne_nan]
  exact hx.mono hx' (Number.closest_mono hp hp' hle)

/-- **What lies in `[0, 1]` is fitted as it is validated.** -/
theorem fit_of_inRange (h : inRange raw = true) :
    (∃ m, fit raw o = .ok m) ∧ fit raw o = of raw o := by
  obtain ⟨x, hx⟩ := Number.exists_toBinary64 fun hbeyond => hbeyond.outside (.inl h)
  have hdeg := (Number.isDegree_iff hx).mpr (.inl h)
  have hfit := fit_eq (o := o) hx (Binary64.isDegree_iff.mp hdeg).1
  rw [Binary64.clamped_of_isDegree hdeg] at hfit
  exact ⟨⟨_, hfit⟩, by rw [hfit, of_eq hx, if_pos hdeg]⟩

/-- **Fitting gives the double nearest to the closest point of `[0, 1]`**, of every number but NaN
and those beyond the doubles, which fail as too large.  Fitted degrees are fitted by themselves,
grow with the numbers, and are what validation gives in `[0, 1]`.  Sessions fit as described. -/
theorem fitted_is_nearest (raw : Number) (o : Opset) :
    (fit raw o = .error (.notANumber o.className) ↔ raw = .float .nan) ∧
    (raw.Beyond → fit raw o = .error raw.tooLarge) ∧
    (raw ≠ .float .nan → ¬ raw.Beyond → ∃ p x, raw.point? = some p ∧
      fit raw o = .ok ⟨.float x, o⟩ ∧ x.isDegree = true ∧ x.IsNearest p.closest) ∧
    (∀ m, fit raw o = .ok m → fit m.raw o = .ok m) ∧
    (∀ raw' m m', raw.le raw' = true → fit raw o = .ok m → fit raw' o = .ok m' →
      m.raw.le m'.raw = true) ∧
    (inRange raw = true → (∃ m, fit raw o = .ok m) ∧ fit raw o = of raw o) ∧
    Session.Follows Value.IsDegree (Session.fit (.number raw) (.opset o)) (fit raw o) := by
  refine ⟨⟨fun h => ?_, ?_⟩, fit_beyond, exists_fit, fun _ => fit_fit, fun _ _ _ => fit_mono,
    fit_of_inRange, Session.follows_fit raw o⟩
  · by_contra hnan
    by_cases hbeyond : raw.Beyond
    · rw [fit_beyond hbeyond] at h
      cases raw <;> cases h
    · obtain ⟨p, x, -, hx, -⟩ := exists_fit (o := o) hnan hbeyond
      cases hx.symm.trans h
  · rintro rfl
    exact fit_nan

/-- Infinity is fitted by one. -/
theorem infinity_is_fitted : ∃ x : Binary64,
    fit (.float (.infinite false)) Catalogue.hamacher1 = .ok ⟨.float x, Catalogue.hamacher1⟩ ∧
    x.IsNearest 1 := by
  obtain ⟨p, x, hp, hx, -, hnearest⟩ :=
    (fitted_is_nearest (.float (.infinite false)) Catalogue.hamacher1).2.2.1 (by decide)
      fun ⟨_, hq, _⟩ => nomatch hq
  obtain rfl : .above = p := Option.some.inj hp
  exact ⟨x, hx, hnearest⟩

/-- A whole number beyond the doubles is not fitted, though it is above one. -/
theorem huge_number_is_not_fitted :
    (Number.float .one).le (.int (10 ^ 400)) = true ∧
    fit (.int (10 ^ 400)) Catalogue.hamacher1 = .error .integerTooLarge := by
  have hbeyond : (Number.int (10 ^ 400)).Beyond :=
    ⟨_, rfl, Number.quotient_eq_infinite_iff.mp (by decide +kernel)⟩
  exact ⟨by decide +kernel, fit_beyond hbeyond⟩

end Membership

end FuzzyLogic
