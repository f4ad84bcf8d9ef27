import FuzzyLogic.Decimal.Layout
import FuzzyLogic.Proofs.Binary64.Exact
import FuzzyLogic.Proofs.Decimal.Numeral

/-!
# Proofs/Decimal/ReadBack — the shortest digits read back

The search for the fewest digits tests its candidates against the interval of rationals that are
nearest to a double.  Whatever passes the test rounds to the double (`isNearest_of_attracts_eq`);
where nothing passes, the exact expansion is taken.  Hence **the digits that are written denote a
rational to which the double is nearest** (`isNearest_shortest`), for subnormal doubles as for all
others, and the positional text of a finite double is a numeral of that rational
(`denotes_plainText`).
-/

namespace FuzzyLogic

namespace Magnitude

variable {m : Magnitude} {n : ℕ} {k : ℤ}

/-! ## The test -/

/-- The test, divided by the denominator of the power of ten. -/
theorem attracts_iff : m.attracts n k = true ↔
    if m.val % 2 = 0 then
      m.lowerEnd ≤ 2 * (Decimal.value ⟨n, k⟩ * unitsPerOne) ∧
        2 * (Decimal.value ⟨n, k⟩ * unitsPerOne) ≤ m.upperEnd
    else m.lowerEnd < 2 * (Decimal.value ⟨n, k⟩ * unitsPerOne) ∧
      2 * (Decimal.value ⟨n, k⟩ * unitsPerOne) < m.upperEnd := by
  have hpos : (0 : ℚ) < Decimal.lowering k := by exact_mod_cast Decimal.lowering_pos k
  have hpoint : 2 * (Decimal.value ⟨n, k⟩ * unitsPerOne) =
      (n * Decimal.raising k * (2 * unitsPerOne) : ℕ) / Decimal.lowering k := by
    rw [Decimal.value, ← Decimal.raising_div_lowering]
    push_cast
    ring
  simp only [attracts, hpoint, le_div_iff₀ hpos, div_le_iff₀ hpos, lt_div_iff₀ hpos,
    div_lt_iff₀ hpos]
  split <;> simp only [Bool.and_eq_true, decide_eq_true_iff] <;> norm_cast

/-- What passes the test rounds to the double. -/
theorem isNearest_of_attracts_eq (h : m.attracts n k = true) :
    m.IsNearest (Decimal.value ⟨n, k⟩) := by
  have htop : m.val ≤ topRank := Nat.le_of_lt_succ m.isLt
  refine isNearest_of_attracts (r := m.val) (by omega) ?_
  have hends : (m.lowerEnd : ℚ) = FuzzyLogic.units (m.val - 1) + FuzzyLogic.units m.val ∧
      (m.upperEnd : ℚ) = FuzzyLogic.units m.val + FuzzyLogic.units (m.val + 1) := by
    simp [lowerEnd, upperEnd, units]
  rw [attracts_iff, hends.1, hends.2] at h
  split at h
  case isTrue heven => exact ⟨h.1, h.2, fun hodd => by omega⟩
  case isFalse => exact ⟨h.1.le, h.2.le, fun _ => h⟩

/-! ## The search -/

/-- A grid point that is chosen has passed the test. -/
theorem attracts_of_gridPoint? (h : m.gridPoint? k = some n) : m.attracts n k = true := by
  unfold gridPoint? at h
  dsimp only at h
  generalize 2 * m.units * Decimal.lowering k / (2 * unitsPerOne * Decimal.raising k) = below at h
  generalize 2 * m.units * Decimal.lowering k % (2 * unitsPerOne * Decimal.raising k) = rest at h
  split at h
  case isTrue hbelow =>
    split at h
    case isTrue habove =>
      -- whichever is nearer, it is one of the two
      have hn : n = below ∨ n = below + 1 := by
        obtain rfl := Option.some.inj h
        split_ifs <;> omega
      rcases hn with rfl | rfl
      · exact hbelow
      · exact habove
    case isFalse => exact Option.some.inj h ▸ hbelow
  case isFalse =>
    split at h
    case isTrue habove => exact Option.some.inj h ▸ habove
    case isFalse => exact absurd h (by simp)

theorem ten_zpow_neg (i : ℕ) : (10 : ℚ) ^ (-(i : ℤ)) = 1 / (2 ^ i * 5 ^ i) := by
  rw [← mul_pow, zpow_neg, zpow_natCast, one_div]
  norm_num

/-- The exact expansion denotes the value. -/
theorem value_exactDecimal (m : Magnitude) : m.exactDecimal.value = m.value := by
  have hten := ten_zpow_neg 1074
  rw [Nat.cast_ofNat] at hten
  rw [Decimal.value, exactDecimal, value, unitsPerOne_eq_pow, hten]
  generalize 1074 = i
  rw [Nat.pow_eq]
  push_cast
  field_simp

theorem isNearest_searchDecimal (grids : ℕ) (k : ℤ) :
    m.IsNearest (m.searchDecimal grids k).value := by
  induction grids generalizing k with
  | zero =>
    rw [searchDecimal, value_exactDecimal]
    exact m.isNearest_value
  | succ grids ih =>
    rw [searchDecimal]
    split
    case h_1 n hn => exact isNearest_of_attracts_eq (attracts_of_gridPoint? hn)
    case h_2 => exact ih (k - 1)

end Magnitude

/-! ## Zeros at the end -/

namespace Decimal

theorem value_trimmed (d : Decimal) : d.trimmed.value = d.value := by
  fun_induction trimmed d with
  | case1 d h ih =>
    have hten : d.digits = d.digits / 10 * 10 := by omega
    have hcast : (d.digits : ℚ) = (d.digits / 10 : ℕ) * 10 := by exact_mod_cast hten
    rw [ih, value, value, zpow_add_one₀ (by norm_num), hcast]
    ring
  | case2 => rfl

end Decimal

/-- **The shortest digits read back.** -/
theorem Magnitude.isNearest_shortest (m : Magnitude) : m.IsNearest m.shortest.value := by
  rw [shortest, Decimal.value_trimmed]
  exact isNearest_searchDecimal 800 m.leadingPlace

/-! ## Positional text -/

namespace Numeral

open Decimal

variable {ds es : List Char}

theorem Digits.append (hds : Digits ds) (hes : Digits es) : Digits (ds ++ es) := by
  intro c hc
  rcases List.mem_append.mp hc with h | h
  · exact hds c h
  · exact hes c h

theorem digits_zeros (n : ℕ) : Digits (List.replicate n '0') := by
  intro c hc
  rw [List.eq_of_mem_replicate hc]
  decide

theorem digits_digitList (n : ℕ) : Digits (digitList n) := by
  intro c hc
  have h : c.isDigit = true := Nat.isDigit_of_mem_toDigits (by decide) (by decide) hc
  simpa [Char.isDigit, isDigit, Char.le_def] using h

theorem digitList_ne_nil (n : ℕ) : digitList n ≠ [] := Nat.toDigits_ne_nil

theorem ofDigitList_digitList (n : ℕ) : ofDigitList (digitList n) = n := Nat.ofDigitChars_ten_toDigits

theorem ofDigitList_zeros (n : ℕ) : ofDigitList (List.replicate n '0') = 0 := by
  rw [ofDigitList, Nat.ofDigitChars_replicate_zero, mul_zero]

/-- Zeros at the end: a whole number. -/
theorem denotes_whole {d : Decimal} (h : 0 ≤ d.exponent) :
    Denotes (digitList d.digits ++ List.replicate d.exponent.toNat '0') d.value := by
  have hvalue : d.value =
      (ofDigitList (digitList d.digits ++ List.replicate d.exponent.toNat '0') : ℕ) := by
    obtain ⟨e, he⟩ := Int.eq_ofNat_of_zero_le h
    rw [ofDigitList_append, ofDigitList_digitList, ofDigitList_zeros, List.length_replicate,
      Decimal.value, he, zpow_natCast, Int.toNat_natCast]
    push_cast
    ring
  rw [hvalue]
  exact .whole (List.append_ne_nil_of_left_ne_nil (digitList_ne_nil _) _)
    ((digits_digitList _).append (digits_zeros _))

/-- Digits with a point somewhere, as many after it as the exponent says. -/
theorem denotes_point {d : Decimal} {ws fs : List Char} (hws : Digits ws) (hne : fs ≠ [])
    (hfs : Digits fs) (hlength : d.exponent = -fs.length)
    (hdigits : ofDigitList (ws ++ fs) = d.digits) : Denotes (ws ++ '.' :: fs) d.value := by
  have hvalue : d.value = ofDigitList ws + ofDigitList fs / 10 ^ fs.length := by
    rw [Decimal.value, ← hdigits, hlength, ofDigitList_append, zpow_neg, zpow_natCast]
    push_cast
    field_simp
  rw [hvalue]
  exact .fraction hws hne hfs

/-- **Positional text is a numeral of the decimal.** -/
theorem denotes_positional (d : Decimal) : Denotes (d.positional "").toList d.value := by
  unfold positional
  dsimp only
  have hds := digits_digitList d.digits
  split_ifs with hwhole hinside
  · simpa [zeros] using denotes_whole hwhole
  · -- the point stands among the digits
    simp only [String.toList_append, String.toList_ofList, List.append_assoc]
    have hlength : (digitList d.digits).length + d.exponent = d.leading := rfl
    change Denotes (List.take _ _ ++ '.' :: List.drop _ _) d.value
    refine denotes_point (fun c hc => hds c (List.mem_of_mem_take hc)) ?_
      (fun c hc => hds c (List.mem_of_mem_drop hc)) ?_ ?_
    · rw [ne_eq, List.drop_eq_nil_iff]
      omega
    · rw [List.length_drop]
      omega
    · rw [List.take_append_drop, ofDigitList_digitList]
  · -- zeros stand between the point and the digits
    have hlength : (digitList d.digits).length + d.exponent = d.leading := rfl
    have h : Denotes (['0'] ++ '.' :: (List.replicate (-d.leading).toNat '0' ++ digitList d.digits))
        d.value := by
      refine denotes_point (by decide) (List.append_ne_nil_of_right_ne_nil _ (digitList_ne_nil _))
        ((digits_zeros _).append hds) ?_ ?_
      · rw [List.length_append, List.length_replicate]
        omega
      · rw [ofDigitList_append, ofDigitList_append, ofDigitList_zeros, ofDigitList_digitList,
          show ofDigitList ['0'] = 0 from rfl, mul_zero, mul_zero, zero_add, zero_add]
    simpa [zeros] using h

end Numeral

/-- **The text of a nonnegative finite double is a numeral, and the double is nearest to what it
denotes.** -/
theorem Binary64.denotes_plainText {m : Magnitude} (hm : m ≠ .top) :
    ∃ q, Numeral.Denotes (Binary64.signed false m).plainText.toList q ∧ m.IsNearest q := by
  by_cases hzero : m = .zero
  · subst hzero
    refine ⟨_, .whole (by decide) (by decide), ?_⟩
    have h := Magnitude.zero.isNearest_value
    rw [Magnitude.value_zero] at h
    exact h
  · have htext : (Binary64.signed false m).plainText = m.shortest.positional "" := by
      simp [plainText, text, Magnitude.text, hzero, hm, Decimal.text, NumberLayout.plain]
    rw [htext]
    exact ⟨_, Numeral.denotes_positional _, m.isNearest_shortest⟩

end FuzzyLogic
