import FuzzyLogic.Decimal.Reader
import FuzzyLogic.Proofs.Decimal.ReadBack
import Mathlib.Data.List.TakeWhile

/-!
# Proofs/Decimal/ExactText — the exact text of a double is read back

The reader takes a numeral with an exponent as the digits before and after the point, scaled.
Scientific text is thus read as the very decimal it writes (`read?_scientific`), and positional text
as one of the same value; the shortest digits of a double denote a number to which no other double
is nearest.

What is read as a numeral consists of digits, points, the letter `e` and signs (`IsNumeralChar`),
and begins with no sign, so that nothing the reader does beforehand changes it.  Hence **every
double, NaN and both zeros included, is read back from its exact text** (`Binary64.read?_exactText`).
-/

namespace FuzzyLogic

namespace Decimal

open Numeral Text

variable {cs fs : List Char} {d : Decimal} {e : ℤ}

/-! ## Exponents -/

/-- The digits of a number, two at least. -/
def paddedDigits (n : ℕ) : List Char :=
  (if (digitList n).length < 2 then ['0'] else []) ++ digitList n

theorem digits_paddedDigits (n : ℕ) : Digits (paddedDigits n) := by
  unfold paddedDigits
  split_ifs
  · exact (digits_zeros 1).append (digits_digitList n)
  · exact digits_digitList n

theorem paddedDigits_ne_nil (n : ℕ) : paddedDigits n ≠ [] :=
  List.append_ne_nil_of_right_ne_nil _ (digitList_ne_nil n)

theorem ofDigitList_paddedDigits (n : ℕ) : ofDigitList (paddedDigits n) = n := by
  unfold paddedDigits
  split_ifs
  · rw [ofDigitList_append, show ofDigitList ['0'] = 0 from rfl, ofDigitList_digitList, mul_zero,
      zero_add]
  · exact ofDigitList_digitList n

/-- How an exponent is written. -/
def exponentText (e : ℤ) : List Char :=
  'e' :: (if e < 0 then '-' else '+') :: paddedDigits e.natAbs

theorem stops_exponentText (e : ℤ) : Stops isDigit (exponentText e) := stops_cons.mpr (by decide)

theorem exponentText_ne_point (e : ℤ) (after : List Char) : exponentText e ≠ '.' :: after :=
  fun h => absurd (List.cons_eq_cons.mp h).1 (by decide)

/-- **An exponent is read as it is written.** -/
theorem readExponent?_exponentText (e : ℤ) : readExponent? (exponentText e) = some e := by
  have hne : (paddedDigits e.natAbs).isEmpty = false := by simpa using paddedDigits_ne_nil e.natAbs
  have hall : (paddedDigits e.natAbs).all isDigit = true :=
    List.all_eq_true.mpr (digits_paddedDigits _)
  have hsize : ofDigitList (paddedDigits e.natAbs) = e.natAbs := ofDigitList_paddedDigits _
  unfold exponentText
  generalize paddedDigits e.natAbs = ds at hne hall hsize ⊢
  split_ifs with hneg
  · have he : -((ofDigitList ds : ℕ) : ℤ) = e := by omega
    simp [readExponent?, splitSign, hne, hall, he]
  · have he : ((ofDigitList ds : ℕ) : ℤ) = e := by omega
    simp [readExponent?, splitSign, hne, hall, he]

theorem toList_scientific {c : Char} (h : digitList d.digits = c :: fs) :
    d.scientific.toList =
      c :: ((if fs = [] then [] else '.' :: fs) ++ exponentText (d.leading - 1)) := by
  have hfs : (c :: fs).length ≤ 1 ↔ fs = [] := by simp
  simp only [scientific, h, hfs, exponentText, paddedDigits]
  split_ifs <;> simp_all

/-! ## Numerals -/

/-- **Scientific text is read as the decimal that it writes.** -/
theorem read?_scientific (d : Decimal) : read? d.scientific.toList = some d := by
  have hds := digits_digitList d.digits
  have hnumber := ofDigitList_digitList d.digits
  obtain ⟨c, fs, h⟩ := List.exists_cons_of_ne_nil (digitList_ne_nil d.digits)
  have hlength : d.leading = (fs.length + 1 : ℕ) + d.exponent := by
    rw [leading, h, List.length_cons]
  rw [h] at hds hnumber
  have hc : Digits [c] := fun x hx => hds x (List.mem_cons.mpr (.inl (List.mem_singleton.mp hx)))
  have hfs : Digits fs := fun x hx => hds x (List.mem_cons_of_mem c hx)
  -- the digits stand on both sides of the point, and the exponent counts those behind it
  have hparts : ofParts [c] fs (d.leading - 1) = d := by
    have hplace : d.leading - 1 - fs.length = d.exponent := by omega
    rw [ofParts, List.singleton_append, hnumber, hplace]
  have hstops := stops_exponentText (d.leading - 1)
  rw [toList_scientific h]
  split
  · rename_i hnone
    subst hnone
    have hread := read?_whole_append (List.cons_ne_nil c []) hc hstops (exponentText_ne_point _)
    rwa [readExponent?_exponentText, Option.map_some, hparts] at hread
  · rename_i hsome
    have hread := read?_fraction_append hc hsome hfs hstops
    rwa [readExponent?_exponentText, Option.map_some, hparts] at hread

/-- **Positional text that keeps a fraction is a numeral of the decimal, too.** -/
theorem denotes_positional_fraction (d : Decimal) : Denotes (d.positional ".0").toList d.value := by
  by_cases h : 0 ≤ d.exponent
  · have hdigits := (digits_digitList d.digits).append (digits_zeros d.exponent.toNat)
    have hne := List.append_ne_nil_of_left_ne_nil (digitList_ne_nil d.digits)
      (List.replicate d.exponent.toNat '0')
    have hdenotes := Denotes.fraction hdigits (List.cons_ne_nil '0' []) (digits_zeros 1)
    have hzero : ofDigitList ['0'] = 0 := rfl
    rw [hzero, Nat.cast_zero, zero_div, add_zero,
      ← (denotes_whole h).unique (.whole hne hdigits)] at hdenotes
    simpa [positional, h, zeros] using hdenotes
  · have htext : d.positional ".0" = d.positional "" := by simp [positional, h]
    rw [htext]
    exact denotes_positional d

/-! ## What is read -/

/-- The characters of numerals with an exponent. -/
def IsNumeralChar (c : Char) : Prop := isDigit c = true ∨ c ∈ ['.', 'e', 'E', '+', '-']

theorem mem_splitSign {c : Char} (h : c ∈ cs) : c = '-' ∨ c = '+' ∨ c ∈ (splitSign cs).2 := by
  unfold splitSign
  split
  · exact (List.mem_cons.mp h).imp_right .inr
  · exact (List.mem_cons.mp h).elim (fun hc => .inr (.inl hc)) (fun hc => .inr (.inr hc))
  · exact .inr (.inr h)

theorem numeralChar_of_readExponent? (h : readExponent? cs = some e) :
    ∀ c ∈ cs, IsNumeralChar c := by
  cases cs with
  | nil => exact fun c hc => absurd hc List.not_mem_nil
  | cons letter rest =>
    simp only [readExponent?] at h
    split at h
    case isFalse => cases h
    case isTrue htest =>
      simp only [Bool.and_eq_true, Bool.or_eq_true, decide_eq_true_eq, List.all_eq_true] at htest
      obtain ⟨⟨hletter, -⟩, hdigits⟩ := htest
      refine List.forall_mem_cons.mpr ⟨?_, fun c hc => ?_⟩
      · rcases hletter with rfl | rfl <;> exact .inr (by decide)
      · rcases mem_splitSign hc with rfl | rfl | hc
        · exact .inr (by decide)
        · exact .inr (by decide)
        · exact .inl (hdigits c hc)

/-- What is read as a numeral has digits, and behind them an exponent. -/
theorem exists_parts_of_read? (h : read? cs = some d) : ∃ ws fs rest e,
    (cs = ws ++ '.' :: (fs ++ rest) ∨ fs = [] ∧ cs = ws ++ rest) ∧ Digits ws ∧ Digits fs ∧
      (ws ≠ [] ∨ fs ≠ []) ∧ readExponent? rest = some e := by
  have hdigits : ∀ ds : List Char, Digits (ds.takeWhile isDigit) := fun ds =>
    List.all_eq_true.mp List.all_takeWhile
  have hparts : ∀ {ws fs rest : List Char}, (if ws.isEmpty && fs.isEmpty then none
      else (readExponent? rest).map (ofParts ws fs)) = some d →
      (ws ≠ [] ∨ fs ≠ []) ∧ ∃ e, readExponent? rest = some e := by
    intro ws fs rest h
    split at h
    case isTrue => cases h
    case isFalse hsome =>
      rw [Bool.and_eq_true, List.isEmpty_iff, List.isEmpty_iff, not_and_or] at hsome
      obtain ⟨e, he, -⟩ := Option.map_eq_some_iff.mp h
      exact ⟨hsome, e, he⟩
  have hsplit := (List.takeWhile_append_dropWhile (p := isDigit) (l := cs)).symm
  simp only [read?] at h
  split at h
  case h_1 after hafter =>
    obtain ⟨hne, e, he⟩ := hparts h
    refine ⟨_, _, _, e, .inl ?_, hdigits cs, hdigits after, hne, he⟩
    rwa [List.takeWhile_append_dropWhile, ← hafter]
  case h_2 =>
    obtain ⟨hne, e, he⟩ := hparts h
    have hnone : Digits [] := fun c hc => absurd hc List.not_mem_nil
    exact ⟨_, [], _, e, .inr ⟨rfl, hsplit⟩, hdigits cs, hnone, hne, he⟩

/-- **What is read as a numeral** consists of digits, points, the letter `e` and signs. -/
theorem numeralChar_of_read? (h : read? cs = some d) : ∀ c ∈ cs, IsNumeralChar c := by
  obtain ⟨ws, fs, rest, e, hcs, hws, hfs, -, he⟩ := exists_parts_of_read? h
  have hrest := numeralChar_of_readExponent? he
  intro c hc
  rcases hcs with rfl | ⟨-, rfl⟩
  · simp only [List.mem_append, List.mem_cons] at hc
    rcases hc with hc | rfl | hc | hc
    · exact .inl (hws c hc)
    · exact .inr (by decide)
    · exact .inl (hfs c hc)
    · exact hrest c hc
  · rcases List.mem_append.mp hc with hc | hc
    · exact .inl (hws c hc)
    · exact hrest c hc

/-- What is read as a numeral begins with a digit or the point. -/
theorem exists_start_of_read? (h : read? cs = some d) :
    ∃ c rest, cs = c :: rest ∧ (isDigit c = true ∨ c = '.') := by
  obtain ⟨ws, fs, rest, e, hcs, hws, -, hne, -⟩ := exists_parts_of_read? h
  cases ws with
  | cons c ws =>
    have hc : isDigit c = true := hws c List.mem_cons_self
    rcases hcs with rfl | ⟨-, rfl⟩
    · exact ⟨c, ws ++ _, rfl, .inl hc⟩
    · exact ⟨c, ws ++ rest, rfl, .inl hc⟩
  | nil =>
    rcases hcs with rfl | ⟨rfl, -⟩
    · exact ⟨'.', _, rfl, .inr rfl⟩
    · exact absurd rfl (hne.resolve_left (not_not.mpr rfl))

end Decimal

/-! ## Doubles -/

namespace Binary64

open Decimal (isDigit IsNumeralChar)

variable {cs : List Char} {s : String} {d : Decimal}

/-- The reader leaves the character as it is, wherever it stands. -/
def IsPlainChar (c : Char) : Prop := toAscii c = c ∧ isAsciiBlank c = false ∧ c ≠ '_'

theorem dropUnderscores?_eq_some (previous : Char) (h : ∀ c ∈ cs, c ≠ '_') :
    dropUnderscores? previous cs = some cs := by
  induction cs generalizing previous with
  | nil => rfl
  | cons c cs ih =>
    rw [List.forall_mem_cons] at h
    rw [dropUnderscores?, if_neg h.1, ih c h.2, Option.map_some]
    exact fun _ _ heq => absurd heq h.1

/-- Of plain characters, the reader reads what stands there. -/
theorem read?_of_plain (h : ∀ c ∈ s.toList, IsPlainChar c) : read? s = readBare? s.toList := by
  have hascii : s.toList.map toAscii = s.toList := by
    rw [List.map_congr_left fun c hc => (h c hc).1, List.map_id']
  have hfront : ∀ {cs : List Char}, (∀ c ∈ cs, c ∈ s.toList) → cs.dropWhile isAsciiBlank = cs := by
    intro cs hcs
    refine List.dropWhile_eq_self_iff.mpr fun hpos => ?_
    rw [Bool.not_eq_true]
    exact (h _ (hcs _ (List.getElem_mem hpos))).2.1
  have hunderscores := dropUnderscores?_eq_some ' ' fun c hc => (h c hc).2.2
  simp only [read?, hascii]
  rw [hfront fun _ hc => hc, hfront fun _ hc => List.mem_reverse.mp hc, List.reverse_reverse,
    hunderscores, Option.bind_some]

theorem isDigit_bounds {c : Char} (h : isDigit c = true) : 48 ≤ c.toNat ∧ c.toNat ≤ 57 := by
  simpa [isDigit, Char.le_def, UInt32.le_iff_toNat_le] using h

/-- The characters of numerals are plain. -/
theorem isPlainChar {c : Char} (h : IsNumeralChar c) : IsPlainChar c := by
  rcases h with h | h
  · have hbounds := isDigit_bounds h
    refine ⟨if_pos (by omega), ?_, ?_⟩
    · have hspace : c ≠ ' ' := by
        rintro rfl
        cases h
      simp [isAsciiBlank, hspace]
      omega
    · rintro rfl
      cases h
  · simp only [List.mem_cons, List.not_mem_nil, or_false] at h
    rcases h with rfl | rfl | rfl | rfl | rfl <;> exact ⟨by decide, by decide, by decide⟩

/-- Digits and the point have no case. -/
theorem lowerAscii_of_isDigit {c : Char} (h : isDigit c = true ∨ c = '.') : lowerAscii c = c := by
  rcases h with h | rfl
  · refine if_neg ?_
    simp only [Bool.and_eq_true, decide_eq_true_eq, Char.le_def, UInt32.le_iff_toNat_le]
    exact fun hcapital => absurd (Nat.le_trans hcapital.1 (isDigit_bounds h).2) (by decide)
  · decide

/-- A numeral behind an optional sign is read as the double nearest to it, of that sign. -/
theorem readBare?_of_read? (minus : Bool) (h : Decimal.read? cs = some d) :
    readBare? ((if minus then ['-'] else []) ++ cs) = some (.signed minus d.toMagnitude) := by
  obtain ⟨c, rest, rfl, hc⟩ := Decimal.exists_start_of_read? h
  have hne : ∀ first : Char, isDigit first = false → first ≠ '.' → c ≠ first := by
    rintro first hdigit hpoint rfl
    exact hc.elim (fun h => Bool.false_ne_true (hdigit.symm.trans h)) hpoint
  have hsign : Decimal.splitSign ((if minus then ['-'] else []) ++ c :: rest) =
      (minus, c :: rest) := by
    cases minus with
    | true => rfl
    | false =>
      have hminus : c ≠ '-' := hne '-' (by decide) (by decide)
      have hplus : c ≠ '+' := hne '+' (by decide) (by decide)
      simp [Decimal.splitSign, hminus, hplus]
  -- the words for what is no number begin with a letter
  have hword : ∀ first more, isDigit first = false → first ≠ '.' →
      String.ofList ((c :: rest).map lowerAscii) ≠ String.ofList (first :: more) := by
    intro first more hdigit hpoint heq
    rw [String.ofList_inj, List.map_cons, lowerAscii_of_isDigit hc] at heq
    exact hne first hdigit hpoint (List.cons_eq_cons.mp heq).1
  have hinf := hword 'i' ['n', 'f'] (by decide) (by decide)
  have hinfinity := hword 'i' ['n', 'f', 'i', 'n', 'i', 't', 'y'] (by decide) (by decide)
  have hnan := hword 'n' ['a', 'n'] (by decide) (by decide)
  rw [readBare?, hsign]
  simp only [hinf, hinfinity, hnan, decide_false, Bool.or_self, Bool.false_eq_true, if_false, h,
    Option.map_some]

/-- The exact text of a finite magnitude is read as a decimal to which it is nearest. -/
theorem exists_read?_text {m : Magnitude} (h : m ≠ .top) :
    ∃ d, Decimal.read? (m.text .exact).toList = some d ∧ d.toMagnitude = m := by
  by_cases hzero : m = .zero
  · subst hzero
    exact ⟨_, rfl, by decide⟩
  have htext : m.text .exact = m.shortest.text .exact := by simp [Magnitude.text, hzero, h]
  have hshortest := m.isNearest_shortest
  rw [htext, Decimal.text]
  split
  · obtain ⟨d, hd, hnearest⟩ :=
      Numeral.exists_magnitude (Decimal.denotes_positional_fraction m.shortest)
    exact ⟨d, hd, hnearest.unique hshortest⟩
  · exact ⟨_, Decimal.read?_scientific _, (Decimal.isNearest_toMagnitude _).unique hshortest⟩

theorem toList_text (layout : NumberLayout) (minus : Bool) (m : Magnitude) :
    ((signed minus m).text layout).toList =
      (if minus then ['-'] else []) ++ (m.text layout).toList := by
  cases minus <;> simp [text]

/-- A text whose magnitude is read back is read back, whatever the sign. -/
theorem read?_text {layout : NumberLayout} (minus : Bool)
    (h : Decimal.read? (d.toMagnitude.text layout).toList = some d) :
    read? ((signed minus d.toMagnitude).text layout) = some (signed minus d.toMagnitude) := by
  rw [read?_of_plain, toList_text, readBare?_of_read? minus h]
  intro c hc
  rw [toList_text] at hc
  refine isPlainChar ?_
  rcases List.mem_append.mp hc with hc | hc
  · cases minus with
    | true => exact .inr (by simp_all)
    | false => exact absurd hc List.not_mem_nil
  · exact Decimal.numeralChar_of_read? h c hc

/-- **Every double is read back from its exact text.** -/
theorem read?_exactText (x : Binary64) : read? x.exactText = some x := by
  cases x with
  | nan => decide
  | signed minus m =>
    by_cases htop : m = .top
    · subst htop
      cases minus <;> decide
    obtain ⟨d, hd, rfl⟩ := exists_read?_text htop
    exact read?_text minus hd

end Binary64

end FuzzyLogic
