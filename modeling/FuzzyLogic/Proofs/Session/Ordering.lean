import FuzzyLogic.Proofs.Session.Construction

/-!
# Proofs/Session/Ordering — degrees ordered against numbers

Numbers lie on the line of the rationals with two ends (`Number.place?`), and compare as their
places do (`Session.onNumbers_of_place`).

A degree is compared with the double nearest to a number, not with the number itself.  Rounding
moves no number across a degree, but may move it onto one (`Number.RoundsTo`): then, and only then,
a comparison that succeeds is not the exact one.  A number beyond the doubles has no nearest double,
and every comparison with it fails (`Session.degree_is_ordered_as_rounded`).
-/

namespace FuzzyLogic

/-- The line of the rationals with two ends. -/
abbrev ExtendedRat : Type := WithBot (WithTop ℚ)

/-- The place of a rational. -/
abbrev ExtendedRat.finite (q : ℚ) : ExtendedRat := ((q : WithTop ℚ) : WithBot (WithTop ℚ))

namespace Number

variable {raw raw' : Number} {x : Binary64} {p p' : ExtendedRat} {q v : ℚ}

/-! ## Places -/

/-- The place of a point. -/
def Point.place : Point → ExtendedRat
  | .below => ⊥
  | .finite a b => .finite (a / b)
  | .above => ((⊤ : WithTop ℚ) : ExtendedRat)

/-- Where a number lies on the line, unless it is NaN. -/
def place? (raw : Number) : Option ExtendedRat := raw.point?.map Point.place

theorem place?_exact (h : raw.asRatio? = some q) : raw.place? = some (.finite q) := by
  rw [place?, point?_exact h, Option.map_some, Point.place, Rat.num_div_den]

theorem place?_finite (hx : x.IsFinite) : (float x).place? = some (.finite x.value) := by
  obtain ⟨a, ha, hvalue⟩ := point?_finite hx
  rw [place?, ha, Option.map_some, Point.place, hvalue,
    mul_div_cancel_right₀ _ Magnitude.unitsPerOne_cast_pos.ne']

theorem place?_eq_none_iff : raw.place? = none ↔ raw = .float .nan := by
  rw [place?, Option.map_eq_none_iff, point?_eq_none_iff]

theorem coe_compare (a c : ℚ) :
    Ord.compare (ExtendedRat.finite a) (ExtendedRat.finite c) = Ord.compare a c := by
  rcases lt_trichotomy a c with h | rfl | h
  · rw [compare_lt_iff_lt.mpr h, compare_lt_iff_lt.mpr (by exact_mod_cast h)]
  · rw [compare_eq_iff_eq.mpr rfl, compare_eq_iff_eq.mpr rfl]
  · rw [compare_gt_iff_gt.mpr h, compare_gt_iff_gt.mpr (by exact_mod_cast h)]

/-- **Points compare as their places do.** -/
theorem compare_place {p p' : Point} (hp : raw.point? = some p) (hp' : raw'.point? = some p') :
    p.compare p' = Ord.compare p.place p'.place := by
  cases p with
  | below =>
    cases p' with
    | below => exact (compare_eq_iff_eq.mpr rfl).symm
    | finite c d => exact (compare_lt_iff_lt.mpr (WithBot.bot_lt_coe _)).symm
    | above => exact (compare_lt_iff_lt.mpr (WithBot.bot_lt_coe _)).symm
  | finite a b =>
    cases p' with
    | below => exact (compare_gt_iff_gt.mpr (WithBot.bot_lt_coe _)).symm
    | finite c d =>
      exact (Point.compare_finite (den_pos_of_point? hp) (den_pos_of_point? hp')).trans
        (coe_compare _ _).symm
    | above =>
      exact (compare_lt_iff_lt.mpr (WithBot.coe_lt_coe.mpr (WithTop.coe_lt_top _))).symm
  | above =>
    cases p' with
    | below => exact (compare_gt_iff_gt.mpr (WithBot.bot_lt_coe _)).symm
    | finite c d =>
      exact (compare_gt_iff_gt.mpr (WithBot.coe_lt_coe.mpr (WithTop.coe_lt_top _))).symm
    | above => exact (compare_eq_iff_eq.mpr rfl).symm

theorem related_of_place (ways : Ordering → Bool) (hp : raw.place? = some p)
    (hp' : raw'.place? = some p') : related ways raw raw' = ways (Ord.compare p p') := by
  obtain ⟨a, ha, rfl⟩ := Option.map_eq_some_iff.mp hp
  obtain ⟨c, hc, rfl⟩ := Option.map_eq_some_iff.mp hp'
  simp only [related, ha, hc, compare_place ha hc]

theorem lt_of_place (hp : raw.place? = some p) (hp' : raw'.place? = some p') :
    raw.lt raw' = decide (p < p') := by
  rw [lt, related_of_place _ hp hp', Bool.eq_iff_iff, beq_iff_eq, compare_lt_iff_lt,
    decide_eq_true_iff]

theorem le_of_place (hp : raw.place? = some p) (hp' : raw'.place? = some p') :
    raw.le raw' = decide (p ≤ p') := by
  rw [le, related_of_place _ hp hp', Bool.eq_iff_iff, bne_iff_ne, ne_eq, compare_gt_iff_gt, not_lt,
    decide_eq_true_iff]

theorem related_nan (ways : Ordering → Bool) (raw : Number) :
    related ways raw (.float .nan) = false ∧ related ways (.float .nan) raw = false := by
  constructor
  · unfold related
    cases raw.point? <;> rfl
  · rfl

/-! ## Numbers rounded onto a double -/

/-- An exact number, other than `v`, that is rounded to `v`. -/
def RoundsTo (raw : Number) (v : ℚ) : Prop :=
  ∃ q, raw.asRatio? = some q ∧ q ≠ v ∧ Binary64.rounded q = v

/-- What is rounded to the value of a degree has a degree as nearest double. -/
theorem isDegree_quotient_of_rounded (hx : x.isDegree = true)
    (h : Binary64.rounded q = x.value) : (quotient q.num q.den).isDegree = true := by
  obtain ⟨-, hnonneg, hle⟩ := Binary64.isDegree_iff.mp hx
  exact Binary64.isDegree_iff.mpr ⟨(Binary64.isNearest_quotient q).ne_nan,
    hnonneg.trans_eq h.symm, (le_of_eq h).trans hle⟩

/-- What is rounded to the value of a degree is close to it. -/
theorem abs_sub_le_of_rounded (hx : x.isDegree = true) (h : Binary64.rounded q = x.value) :
    |x.value - q| ≤ 1 / 2 ^ 53 := by
  obtain ⟨hlow, hhigh⟩ := (Binary64.isNearest_quotient q).isDegree_iff.mp
    (isDegree_quotient_of_rounded hx h)
  have hsmall : Magnitude.underflow ≤ 1 / 2 ^ 53 :=
    one_div_le_one_div_of_le (by positivity) (pow_le_pow_right₀ one_le_two (by omega))
  have hone : (1 / 2 ^ 53 : ℚ) < 1 := by norm_num
  -- Below zero only what underflows is rounded onto a degree, and the degree is zero then.
  rcases le_or_gt 0 q with h₀ | h₀
  · rw [← h]
    exact Binary64.abs_rounded_sub_le_of_le_two h₀ (by linarith)
  · have hzero : x.value = 0 := le_antisymm (h ▸ Binary64.isValue_zero.rounded_le h₀.le)
      (Binary64.isDegree_iff.mp hx).2.1
    rw [hzero, zero_sub, abs_neg, abs_of_neg h₀]
    linarith

/-- No other whole number is rounded to the value of a degree: zero and one are doubles, and all
others are far off. -/
theorem eq_of_rounded_int {n : ℤ} (hx : x.isDegree = true) (h : Binary64.rounded n = x.value) :
    (n : ℚ) = x.value := by
  obtain ⟨-, hnonneg, hle⟩ := Binary64.isDegree_iff.mp hx
  obtain ⟨hlow, hhigh⟩ := abs_le.mp (abs_sub_le_of_rounded hx h)
  have hone : (1 / 2 ^ 53 : ℚ) < 1 := by norm_num
  have hlow' : -1 < n := by exact_mod_cast (by linarith : (-1 : ℚ) < n)
  have hhigh' : n < 2 := by exact_mod_cast (by linarith : (n : ℚ) < 2)
  obtain rfl | rfl : n = 0 ∨ n = 1 := by omega
  · simpa using h
  · simpa using h

/-- **Only fractions are rounded onto a degree**, and only from close by. -/
theorem RoundsTo.exists_ratio (h : raw.RoundsTo x.value) (hx : x.isDegree = true) :
    ∃ q, raw = .ratio q ∧ |x.value - q| ≤ 1 / 2 ^ 53 := by
  obtain ⟨q, hq, hne, hrounded⟩ := h
  rcases asRatio?_eq_some hq with ⟨n, rfl, rfl⟩ | rfl
  · exact absurd (eq_of_rounded_int hx hrounded) hne
  · exact ⟨q, rfl, abs_sub_le_of_rounded hx hrounded⟩

theorem RoundsTo.not_beyond (h : raw.RoundsTo x.value) (hx : x.isDegree = true) :
    ¬ raw.Beyond := by
  obtain ⟨q, hq, -, hrounded⟩ := h
  intro hbeyond
  exact hbeyond.outside
    ((isDegree_quotient_iff hq).mp (isDegree_quotient_of_rounded hx hrounded))

theorem isFinite_quotient (h : ¬ Magnitude.overflow ≤ |q|) : (quotient q.num q.den).IsFinite :=
  (Fin.le_last _).lt_of_ne (mt (Binary64.isNearest_quotient q).1.eq_top_iff.mp h)

/-- Rounding keeps a rational above a value that it does not go onto. -/
theorem lt_rounded_iff (hv : Binary64.IsValue v) (h : Binary64.rounded q = v → q = v) :
    v < Binary64.rounded q ↔ v < q := by
  constructor
  · exact fun hlt => not_le.mp fun hle => hlt.not_ge (hv.rounded_le hle)
  · exact fun hlt => (hv.le_rounded hlt.le).lt_of_ne fun heq => hlt.ne (h heq.symm).symm

/-- Rounding keeps a rational below a value that it does not go onto. -/
theorem rounded_lt_iff (hv : Binary64.IsValue v) (h : Binary64.rounded q = v → q = v) :
    Binary64.rounded q < v ↔ q < v := by
  constructor
  · exact fun hlt => not_le.mp fun hle => hlt.not_ge (hv.le_rounded hle)
  · exact fun hlt => (hv.rounded_le hlt.le).lt_of_ne fun heq => hlt.ne (h heq)

/-- **Rounding moves no number across a double**, at most onto it. -/
theorem exists_place_of_rounded (hv : Binary64.IsValue v) (hp : raw.place? = some p)
    (h : ¬ raw.Beyond) :
    ∃ y p', raw.toBinary64 = .ok y ∧ (float y).place? = some p' ∧
      (raw.RoundsTo v → p' = .finite v) ∧
      (¬ raw.RoundsTo v →
        (.finite v < p' ↔ .finite v < p) ∧ (p' < .finite v ↔ p < .finite v)) := by
  cases hq : raw.asRatio? with
  | none =>
    -- A float is its own nearest double.
    obtain ⟨y, rfl⟩ := asRatio?_eq_none hq
    refine ⟨y, p, rfl, hp, ?_, fun _ => ⟨Iff.rfl, Iff.rfl⟩⟩
    rintro ⟨_, h, -⟩
    cases h
  | some q =>
    have hin : ¬ Magnitude.overflow ≤ |q| := fun hle => h ⟨q, hq, hle⟩
    obtain rfl := Option.some.inj (hp.symm.trans (place?_exact hq))
    refine ⟨quotient q.num q.den, .finite (Binary64.rounded q),
      by rw [toBinary64_exact hq, if_neg hin], place?_finite (isFinite_quotient hin), ?_, ?_⟩
    · rintro ⟨q', hq', -, hrounded⟩
      obtain rfl := Option.some.inj (hq.symm.trans hq')
      rw [hrounded]
    · intro hnot
      have honto : Binary64.rounded q = v → q = v := fun hrounded =>
        by_contra fun hne => hnot ⟨q, hq, hne, hrounded⟩
      simp only [WithBot.coe_lt_coe, WithTop.coe_lt_coe]
      exact ⟨lt_rounded_iff hv honto, rounded_lt_iff hv honto⟩

end Number

namespace Session

variable {c : Comparison} {m : Membership} {raw raw' : Number} {x y : Binary64} {p p' : ExtendedRat}
  {r r' t t' : Except Fault Bool} {fault : Fault}

/-! ## Ways to compare -/

/-- What a comparison says of two elements of an order. -/
def Comparison.Relates {α : Type} [LinearOrder α] : Comparison → α → α → Prop
  | lt, p, q => p < q
  | le, p, q => p ≤ q
  | gt, p, q => q < p
  | ge, p, q => q ≤ p

instance {α : Type} [LinearOrder α] (c : Comparison) (p q : α) : Decidable (c.Relates p q) :=
  match c with
  | .lt => inferInstanceAs (Decidable (p < q))
  | .le => inferInstanceAs (Decidable (p ≤ q))
  | .gt => inferInstanceAs (Decidable (q < p))
  | .ge => inferInstanceAs (Decidable (q ≤ p))

theorem Comparison.mirrored_relates {α : Type} [LinearOrder α] (c : Comparison) (p q : α) :
    c.mirrored.Relates p q ↔ c.Relates q p := by
  cases c <;> exact Iff.rfl

/-- What lies alike beside an element compares alike with it. -/
theorem Comparison.relates_congr {α : Type} [LinearOrder α] {p q q' : α} (hlt : p < q ↔ p < q')
    (hgt : q < p ↔ q' < p) (c : Comparison) : c.Relates p q ↔ c.Relates p q' := by
  cases c with
  | lt => exact hlt
  | le => exact not_lt.symm.trans ((not_congr hgt).trans not_lt)
  | gt => exact hgt
  | ge => exact not_lt.symm.trans ((not_congr hlt).trans not_lt)

/-- **Numbers compare as their places do.** -/
theorem onNumbers_of_place (c : Comparison) (hp : raw.place? = some p)
    (hp' : raw'.place? = some p') : c.onNumbers raw raw' = decide (c.Relates p p') := by
  cases c with
  | lt => exact Number.lt_of_place hp hp'
  | le => exact Number.le_of_place hp hp'
  | gt => exact Number.lt_of_place hp' hp
  | ge => exact Number.le_of_place hp' hp

theorem onNumbers_nan (c : Comparison) (raw : Number) : c.onNumbers raw (.float .nan) = false := by
  cases c <;> simp only [Comparison.onNumbers, Number.lt, Number.le, Number.related_nan]

/-! ## Degrees and numbers -/

/-- In sessions a degree compared with a number comes to one outcome, and the number compared with
the degree to another. -/
def Ordered (c : Comparison) (m : Membership) (raw : Number) (r r' : Except Fault Bool) : Prop :=
  ∀ i, order c (.membership i m) (.number raw) = pureRun r ∧
    order c (.number raw) (.membership i m) = pureRun r'

theorem pureRun_inj {α : Type} {r r' : Except Fault α} (h : (pureRun r : Run α) = pureRun r') :
    r = r' := by
  have hrun := congrArg (fun run : Run α => (run.run.run start).1) h
  simpa only [run_pureRun] using hrun

theorem Ordered.unique (h : Ordered c m raw r r') (h' : Ordered c m raw t t') :
    r = t ∧ r' = t' :=
  ⟨pureRun_inj ((h 0).1.symm.trans (h' 0).1), pureRun_inj ((h 0).2.symm.trans (h' 0).2)⟩

/-- **A degree is compared with the nearest double.** -/
theorem ordered_of_place (c : Comparison) (hm : m.raw = .float x) (hx : x.IsFinite)
    (hy : raw.toBinary64 = .ok y) (hp : (Number.float y).place? = some p) :
    Ordered c m raw (.ok (decide (c.Relates (.finite x.value) p)))
      (.ok (decide (c.Relates p (.finite x.value)))) := by
  have hplace := onNumbers_of_place c (hm ▸ Number.place?_finite hx) hp
  have hmirrored := onNumbers_of_place c.mirrored (hm ▸ Number.place?_finite hx) hp
  simp only [Comparison.mirrored_relates] at hmirrored
  intro i
  rw [← hplace, ← hmirrored]
  simp only [order, orderPlain, Membership.compareNumber, hy]
  exact ⟨rfl, rfl⟩

theorem ordered_of_error (c : Comparison) (h : raw.toBinary64 = .error fault) :
    Ordered c m raw (.error fault) (.error fault) := by
  intro i
  simp only [order, orderPlain, Membership.compareNumber, h]
  exact ⟨rfl, rfl⟩

theorem ordered_nan (c : Comparison) (m : Membership) :
    Ordered c m (.float .nan) (.ok false) (.ok false) := by
  intro i
  simp only [order, orderPlain, Membership.compareNumber, Number.toBinary64_float]
  constructor
  · exact congrArg (fun b => pureRun (.ok b)) (onNumbers_nan c m.raw)
  · exact congrArg (fun b => pureRun (.ok b)) (onNumbers_nan c.mirrored m.raw)

/-- **Comparison is exact unless rounding goes onto the degree**, or beyond the doubles. -/
theorem ordered_exactly (hm : m.raw = .float x) (hx : x.IsFinite) (hp : raw.place? = some p)
    (hbeyond : ¬ raw.Beyond) (hrounds : ¬ raw.RoundsTo x.value) (c : Comparison) :
    Ordered c m raw (.ok (decide (c.Relates (.finite x.value) p)))
      (.ok (decide (c.Relates p (.finite x.value)))) := by
  obtain ⟨y, p', hy, hp', -, halike⟩ :=
    Number.exists_place_of_rounded (Binary64.isValue_value hx.ne_nan) hp hbeyond
  obtain ⟨hlt, hgt⟩ := halike hrounds
  have hmirrored : c.Relates p' (.finite x.value) ↔ c.Relates p (.finite x.value) := by
    rw [← c.mirrored_relates, ← c.mirrored_relates]
    exact Comparison.relates_congr hlt hgt c.mirrored
  simpa only [Comparison.relates_congr hlt hgt c, hmirrored] using ordered_of_place c hm hx hy hp'

/-- **A number rounded onto the degree counts as equal to it.** -/
theorem ordered_as_equal (hm : m.raw = .float x) (hx : x.isDegree = true)
    (h : raw.RoundsTo x.value) (c : Comparison) :
    Ordered c m raw (.ok (decide (c.Relates x.value x.value)))
      (.ok (decide (c.Relates x.value x.value))) := by
  have hfinite := Binary64.isFinite_of_isDegree hx
  obtain ⟨q, hq, -⟩ := id h
  obtain ⟨y, p', hy, hp', honto, -⟩ := Number.exists_place_of_rounded
    (Binary64.isValue_value hfinite.ne_nan) (Number.place?_exact hq) (h.not_beyond hx)
  obtain rfl := honto h
  have hself : c.Relates (ExtendedRat.finite x.value) (.finite x.value) ↔
      c.Relates x.value x.value := by
    cases c <;> simp [Comparison.Relates]
  simpa only [hself] using ordered_of_place c hm hfinite hy hp'

/-- The comparison is exact in all ways only if rounding does not interfere. -/
theorem not_rounded_of_ordered_exactly (hm : m.raw = .float x) (hx : x.isDegree = true)
    (h : ∀ c, Ordered c m raw (.ok (decide (c.Relates (.finite x.value) p)))
      (.ok (decide (c.Relates p (.finite x.value)))))
    (hp : raw.place? = some p) : ¬ raw.Beyond ∧ ¬ raw.RoundsTo x.value := by
  constructor
  · intro hbeyond
    cases ((h .lt).unique (ordered_of_error .lt hbeyond.toBinary64_eq)).1
  · intro hrounds
    have hlt : ¬ ExtendedRat.finite x.value < p := fun hlt => by
      have := ((h .lt).unique (ordered_as_equal hm hx hrounds .lt)).1
      simp [Comparison.Relates, hlt] at this
    have hgt : ¬ p < ExtendedRat.finite x.value := fun hgt => by
      have := ((h .gt).unique (ordered_as_equal hm hx hrounds .gt)).1
      simp [Comparison.Relates, hgt] at this
    obtain ⟨q, hq, hne, -⟩ := hrounds
    obtain rfl := Option.some.inj (hp.symm.trans (Number.place?_exact hq))
    simp only [WithBot.coe_lt_coe, WithTop.coe_lt_coe, not_lt] at hlt hgt
    exact hne (le_antisymm hlt hgt)

/-- **A validated degree is compared with a number as with the nearest double.**  Where `v` is the
value of the degree:

* in all four ways, and on either side, the comparison is the exact one between `v` and the number,
  the infinities included, if and only if the number is not rounded onto `v` from beside it and not
  beyond the doubles;
* a number that is rounded onto `v` counts as equal to it.  Only fractions are, and only within
  `2⁻⁵³` of `v`;
* with a number beyond the doubles every comparison fails, and with NaN none holds;
* with any other number exactly one of smaller, larger, and at most as well as at least, holds. -/
theorem degree_is_ordered_as_rounded (h : m.Validated) (raw : Number) :
    ∃ x, m.raw = .float x ∧ x.isDegree = true ∧
      (∀ p, raw.place? = some p →
        ((∀ c, Ordered c m raw (.ok (decide (c.Relates (.finite x.value) p)))
            (.ok (decide (c.Relates p (.finite x.value))))) ↔
          ¬ raw.Beyond ∧ ¬ raw.RoundsTo x.value)) ∧
      (raw.RoundsTo x.value →
        (∀ c, Ordered c m raw (.ok (decide (c.Relates x.value x.value)))
          (.ok (decide (c.Relates x.value x.value)))) ∧
        ∃ q, raw = .ratio q ∧ |x.value - q| ≤ 1 / 2 ^ 53) ∧
      (raw.Beyond → ∀ c, Ordered c m raw (.error raw.tooLarge) (.error raw.tooLarge)) ∧
      (raw = .float .nan → ∀ c, Ordered c m raw (.ok false) (.ok false)) ∧
      (raw ≠ .float .nan → ¬ raw.Beyond → ∃ smaller larger atMost atLeast,
        Ordered .lt m raw (.ok smaller) (.ok larger) ∧
        Ordered .gt m raw (.ok larger) (.ok smaller) ∧
        Ordered .le m raw (.ok atMost) (.ok atLeast) ∧
        Ordered .ge m raw (.ok atLeast) (.ok atMost) ∧
        [smaller, larger, atMost && atLeast].count true = 1) := by
  obtain ⟨x, hm, hx⟩ := Membership.validated_iff.mp h
  have hfinite := Binary64.isFinite_of_isDegree hx
  refine ⟨x, hm, hx, fun p hp => ⟨fun hall => not_rounded_of_ordered_exactly hm hx hall hp,
    fun hnot => ordered_exactly hm hfinite hp hnot.1 hnot.2⟩,
    fun hrounds => ⟨ordered_as_equal hm hx hrounds, hrounds.exists_ratio hx⟩,
    fun hbeyond c => ordered_of_error c hbeyond.toBinary64_eq, ?_, fun hnan hbeyond => ?_⟩
  · rintro rfl c
    exact ordered_nan c m
  · obtain ⟨p, hp⟩ := Option.ne_none_iff_exists'.mp (mt Number.place?_eq_none_iff.mp hnan)
    obtain ⟨y, p', hy, hp', -, -⟩ :=
      Number.exists_place_of_rounded (Binary64.isValue_value hfinite.ne_nan) hp hbeyond
    have hordered := fun c => ordered_of_place c hm hfinite hy hp'
    refine ⟨_, _, _, _, hordered .lt, hordered .gt, hordered .le, hordered .ge, ?_⟩
    rcases lt_trichotomy (ExtendedRat.finite x.value) p' with hlt | heq | hgt
    · simp [Comparison.Relates, hlt, hlt.le, hlt.not_gt, hlt.not_ge]
    · simp [Comparison.Relates, heq]
    · simp [Comparison.Relates, hgt, hgt.le, hgt.not_gt, hgt.not_ge]

/-- The degree one is smaller than two. -/
theorem one_is_below_two : (⟨.float .one, Catalogue.hamacher1⟩ : Membership).Validated ∧
    Ordered .lt ⟨.float .one, Catalogue.hamacher1⟩ (.int 2) (.ok true) (.ok false) := by
  have hone : (⟨.float .one, Catalogue.hamacher1⟩ : Membership).Validated :=
    Membership.validated_iff.mpr ⟨.one, rfl, by decide⟩
  have hbelow : ¬ (Number.int 2).Beyond := by
    rintro ⟨q, hq, hle⟩
    obtain rfl := Option.some.inj hq
    exact absurd (Number.quotient_eq_infinite_iff.mpr hle) (by decide +kernel)
  obtain ⟨x, hm, hx, hexact, -⟩ := degree_is_ordered_as_rounded hone (.int 2)
  obtain rfl : .one = x := Number.float.inj hm
  have hordered := (hexact _ (Number.place?_exact rfl)).mpr ⟨hbelow, fun hrounds => by
    obtain ⟨q, hq, -⟩ := hrounds.exists_ratio hx
    cases hq⟩
  have hlt : (1 : ℚ) < 2 := one_lt_two
  simpa [Comparison.Relates, hlt, hlt.not_gt] using And.intro hone (hordered .lt)

/-- A fraction just below one is not smaller than the degree one, and a whole number beyond the
doubles is not larger: it cannot be compared at all. -/
theorem just_below_one_is_not_below_one :
    (⟨.float .one, Catalogue.hamacher1⟩ : Membership).Validated ∧ (1 - 1 / 2 ^ 60 : ℚ) < 1 ∧
    Ordered .gt ⟨.float .one, Catalogue.hamacher1⟩ (.ratio (1 - 1 / 2 ^ 60)) (.ok false)
      (.ok false) ∧
    Ordered .lt ⟨.float .one, Catalogue.hamacher1⟩ (.int (10 ^ 400)) (.error .integerTooLarge)
      (.error .integerTooLarge) := by
  have hrounds : (Number.ratio (1 - 1 / 2 ^ 60)).RoundsTo Binary64.one.value := by
    have hquotient : Number.quotient (1 - 1 / 2 ^ 60 : ℚ).num (1 - 1 / 2 ^ 60 : ℚ).den = .one := by
      decide +kernel
    exact ⟨_, rfl, by norm_num, by rw [Binary64.rounded, hquotient]⟩
  have hbeyond : (Number.int (10 ^ 400)).Beyond :=
    ⟨_, rfl, Number.quotient_eq_infinite_iff.mp (by decide +kernel)⟩
  have hequal := ordered_as_equal (m := ⟨.float .one, Catalogue.hamacher1⟩) rfl (by decide)
    hrounds .gt
  refine ⟨Membership.validated_iff.mpr ⟨.one, rfl, by decide⟩, by norm_num, ?_,
    ordered_of_error .lt hbeyond.toBinary64_eq⟩
  simpa [Comparison.Relates] using hequal

end Session

end FuzzyLogic
