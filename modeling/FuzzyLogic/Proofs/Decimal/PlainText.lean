import FuzzyLogic.Proofs.Decimal.ExactText
import FuzzyLogic.Proofs.Decimal.Fewest

/-!
# Proofs/Decimal/PlainText — the canonical text of a double

`Numeral.Canonical` is the shape of canonical numerals: a whole number without superfluous zeros in
front, and perhaps a point with digits behind it that do not end in zero.  The shortest digits of a
double begin and end with a digit other than zero, so that their positional text has this shape, and
what is left of it without the point and the zeros at both ends are these digits
(`canonical_positional`, `significant_positional`).

The text is read back as the double, the sign of zero included, and no decimal of fewer significant
digits rounds to it (`length_shortest_le_significant`).
-/

namespace FuzzyLogic

namespace Numeral

open Decimal Text

variable {ds : List Char} {n : ℕ} {d : Decimal}

/-! ## Shape -/

/-- A whole number: digits, and no zero in front of others. -/
structure Whole (ds : List Char) : Prop where
  nonempty : ds ≠ []
  digits : Digits ds
  leading : ds.head? = some '0' → ds = ['0']

/-- A canonical numeral: a whole number, or one with a fraction that does not end in zero. -/
inductive Canonical : List Char → Prop
  | whole {ws} : Whole ws → Canonical ws
  | fraction {ws fs} : Whole ws → fs ≠ [] → Digits fs → fs.getLast? ≠ some '0' →
      Canonical (ws ++ '.' :: fs)

theorem whole_zero : Whole ['0'] := ⟨by decide, by decide, fun _ => rfl⟩

theorem whole_of_head (hne : ds ≠ []) (hds : Digits ds) (hfirst : ds.head? ≠ some '0') : Whole ds :=
  ⟨hne, hds, fun h => absurd h hfirst⟩

/-! ## Zeros at both ends -/

/-- What is left of digits without the zeros at both ends. -/
def stripZeros (ds : List Char) : List Char :=
  ((ds.dropWhile (· == '0')).reverse.dropWhile (· == '0')).reverse

/-- The significant digits of a numeral. -/
def significant (cs : List Char) : List Char := stripZeros (cs.filter isDigit)

theorem beq_of_mem_zeros {c : Char} (h : c ∈ List.replicate n '0') : (c == '0') = true :=
  beq_iff_eq.mpr (List.eq_of_mem_replicate h)

theorem stops_zero (h : ds.head? ≠ some '0') : Stops (· == '0') ds := fun _ hc =>
  beq_eq_false_iff_ne.mpr fun hzero => h (hzero ▸ hc)

/-- Zeros around digits that neither begin nor end with zero are taken away. -/
theorem stripZeros_zeros_append (a b : ℕ) (hne : ds ≠ []) (hfirst : ds.head? ≠ some '0')
    (hlast : ds.getLast? ≠ some '0') :
    stripZeros (List.replicate a '0' ++ (ds ++ List.replicate b '0')) = ds := by
  have hfront : Stops (· == '0') (ds ++ List.replicate b '0') := by
    refine stops_zero ?_
    rwa [List.head?_append_of_ne_nil _ hne]
  have hback : Stops (· == '0') ds.reverse := stops_zero (by rwa [List.head?_reverse])
  rw [stripZeros, dropWhile_run (fun _ => beq_of_mem_zeros) hfront, List.reverse_append,
    List.reverse_replicate, dropWhile_run (fun _ => beq_of_mem_zeros) hback, List.reverse_reverse]

/-- What is dropped in front are zeros. -/
theorem exists_zeros_append_dropWhile (ds : List Char) :
    ∃ a, ds = List.replicate a '0' ++ ds.dropWhile (· == '0') := by
  refine ⟨(ds.takeWhile (· == '0')).length, ?_⟩
  have hzeros : ds.takeWhile (· == '0') = List.replicate (ds.takeWhile (· == '0')).length '0' :=
    List.eq_replicate_of_mem fun c hc => beq_iff_eq.mp (List.all_eq_true.mp List.all_takeWhile c hc)
  rw [← hzeros, List.takeWhile_append_dropWhile]

/-- Digits are the significant ones with zeros around them. -/
theorem exists_zeros_append (ds : List Char) :
    ∃ a b, ds = List.replicate a '0' ++ (stripZeros ds ++ List.replicate b '0') := by
  obtain ⟨a, ha⟩ := exists_zeros_append_dropWhile ds
  obtain ⟨b, hb⟩ := exists_zeros_append_dropWhile (ds.dropWhile (· == '0')).reverse
  refine ⟨a, b, ?_⟩
  have hback : ds.dropWhile (· == '0') = stripZeros ds ++ List.replicate b '0' := by
    rw [stripZeros, ← List.reverse_replicate, ← List.reverse_append, ← hb, List.reverse_reverse]
  rw [← hback, ← ha]

theorem digits_significant (cs : List Char) : Digits (significant cs) := by
  intro c hc
  have hdrop : c ∈ (cs.filter isDigit).dropWhile (· == '0') :=
    List.mem_reverse.mp ((List.dropWhile_sublist _).mem (List.mem_reverse.mp hc))
  exact (List.mem_filter.mp ((List.dropWhile_sublist _).mem hdrop)).2

/-! ## The digits of a number -/

theorem digitChar_ne_zero (hn : n < 10) (h : n ≠ 0) : Nat.digitChar n ≠ '0' := by
  revert n
  decide

/-- A positive number does not begin with zero. -/
theorem head?_digitList (h : n ≠ 0) : (digitList n).head? ≠ some '0' := by
  induction n using Nat.strong_induction_on with
  | _ n ih =>
    rcases Nat.lt_or_ge n 10 with hlt | hge
    · rw [digitList, Nat.toDigits_of_lt_base hlt, List.head?_cons, ne_eq, Option.some_inj]
      exact digitChar_ne_zero hlt h
    · rw [digitList, Nat.toDigits_of_base_le (by decide) hge,
        List.head?_append_of_ne_nil _ Nat.toDigits_ne_nil]
      exact ih (n / 10) (by omega) (by omega)

/-- A number ends with zero only if it is a multiple of ten. -/
theorem getLast?_digitList (h : n % 10 ≠ 0) : (digitList n).getLast? ≠ some '0' := by
  have hlast : (digitList n).getLast? = some (Nat.digitChar (n % 10)) := by
    rcases Nat.lt_or_ge n 10 with hlt | hge
    · rw [digitList, Nat.toDigits_of_lt_base hlt, Nat.mod_eq_of_lt hlt, List.getLast?_singleton]
    · rw [digitList, Nat.toDigits_of_base_le (by decide) hge, List.getLast?_concat]
  rw [hlast, ne_eq, Option.some_inj]
  exact digitChar_ne_zero (Nat.mod_lt n (by decide)) h

/-- So many digits write a number below that power of ten. -/
theorem ofDigitList_lt (hds : Digits ds) : ofDigitList ds < 10 ^ ds.length := by
  induction ds with
  | nil => decide
  | cons c ds ih =>
    rw [Digits, List.forall_mem_cons] at hds
    have hc : ofDigitList [c] ≤ 9 := by
      have hbounds := Binary64.isDigit_bounds hds.1
      simp only [ofDigitList, Nat.ofDigitChars_cons, Nat.ofDigitChars_nil, Nat.mul_zero, Nat.zero_add]
      change c.toNat - 48 ≤ 9
      omega
    have hds' := ih hds.2
    rw [← List.singleton_append, ofDigitList_append, List.length_append, List.length_singleton,
      pow_add, pow_one]
    nlinarith

/-! ## Positional text -/

/-- Where the digits of a positional text stand: in front of zeros, on both sides of the point, or
behind the point and zeros. -/
theorem positional_forms (d : Decimal) :
    (∃ b, (d.positional "").toList = digitList d.digits ++ List.replicate b '0') ∨
      (∃ ds fs, ds ≠ [] ∧ fs ≠ [] ∧ ds ++ fs = digitList d.digits ∧
        (d.positional "").toList = ds ++ '.' :: fs) ∨
      ∃ a, (d.positional "").toList =
        ['0'] ++ '.' :: (List.replicate a '0' ++ digitList d.digits) := by
  unfold positional
  dsimp only
  split_ifs with hwhole hinside
  · exact .inl ⟨d.exponent.toNat, by simp [zeros]⟩
  · have hlength : (digitList d.digits).length + d.exponent = d.leading := rfl
    refine .inr (.inl ⟨_, _, ?_, ?_, List.take_append_drop d.leading.toNat _, by simp⟩)
    · rw [ne_eq, List.take_eq_nil_iff, not_or]
      exact ⟨by omega, digitList_ne_nil _⟩
    · rw [ne_eq, List.drop_eq_nil_iff]
      omega
  · exact .inr (.inr ⟨(-d.leading).toNat, by simp [zeros]⟩)

/-- **Positional text is canonical** if the digits neither begin nor end with zero. -/
theorem canonical_positional (h : d.digits ≠ 0) (hlast : d.digits % 10 ≠ 0) :
    Canonical (d.positional "").toList := by
  have hds := digits_digitList d.digits
  have hne := digitList_ne_nil d.digits
  have hfirst := head?_digitList h
  have hend := getLast?_digitList hlast
  rcases positional_forms d with ⟨b, htext⟩ | ⟨ds, fs, hws, hfs, hsplit, htext⟩ | ⟨a, htext⟩
  · rw [htext]
    refine .whole (whole_of_head (List.append_ne_nil_of_left_ne_nil hne _)
      (hds.append (digits_zeros b)) ?_)
    rwa [List.head?_append_of_ne_nil _ hne]
  · rw [← hsplit] at hds hfirst hend
    rw [List.head?_append_of_ne_nil _ hws] at hfirst
    rw [List.getLast?_append_of_ne_nil _ hfs] at hend
    rw [htext]
    exact .fraction (whole_of_head hws (fun c hc => hds c (List.mem_append_left _ hc)) hfirst) hfs
      (fun c hc => hds c (List.mem_append_right _ hc)) hend
  · rw [htext]
    refine .fraction whole_zero (List.append_ne_nil_of_right_ne_nil _ hne)
      ((digits_zeros a).append hds) ?_
    rwa [List.getLast?_append_of_ne_nil _ hne]

theorem filter_isDigit (hds : Digits ds) : ds.filter isDigit = ds := List.filter_eq_self.mpr hds

/-- **The significant digits of positional text** are the digits that were written. -/
theorem significant_positional (h : d.digits ≠ 0) (hlast : d.digits % 10 ≠ 0) :
    significant (d.positional "").toList = digitList d.digits := by
  have hds := digits_digitList d.digits
  have hstrip := fun a b => stripZeros_zeros_append a b (digitList_ne_nil d.digits)
    (head?_digitList h) (getLast?_digitList hlast)
  have hpoint : ¬ isDigit '.' = true := by decide
  rcases positional_forms d with ⟨b, htext⟩ | ⟨ds, fs, -, -, hsplit, htext⟩ | ⟨a, htext⟩
  · rw [significant, htext, filter_isDigit (hds.append (digits_zeros b))]
    exact hstrip 0 b
  · have hfilter : (ds ++ '.' :: fs).filter isDigit = digitList d.digits := by
      rw [List.filter_append, List.filter_cons_of_neg hpoint, ← List.filter_append,
        hsplit, filter_isDigit hds]
    rw [significant, htext, hfilter]
    simpa using hstrip 0 0
  · have hfilter : (['0'] ++ '.' :: (List.replicate a '0' ++ digitList d.digits)).filter isDigit =
        List.replicate (a + 1) '0' ++ digitList d.digits := by
      rw [List.filter_append, List.filter_cons_of_neg hpoint,
        filter_isDigit ((digits_zeros a).append hds), filter_isDigit (by decide : Digits ['0']),
        List.replicate_succ]
      rfl
    rw [significant, htext, hfilter]
    simpa using hstrip (a + 1) 0

end Numeral

namespace Magnitude

open Decimal Numeral

variable {m : Magnitude} {d : Decimal}

theorem digits_shortest_ne_zero (h : m ≠ .zero) : m.shortest.digits ≠ 0 :=
  digits_ne_zero_of_isNearest h m.isNearest_shortest

theorem digits_shortest_mod_ten (h : m ≠ .zero) : m.shortest.digits % 10 ≠ 0 := by
  refine digits_trimmed_mod_ten _ (digits_ne_zero_of_isNearest h ?_)
  exact isNearest_searchDecimal 800 m.leadingPlace

/-- A decimal is worth its significant digits, moved to another place. -/
theorem exists_significant (d : Decimal) : ∃ e,
    d.value = Decimal.value ⟨ofDigitList (significant (digitList d.digits)), e⟩ := by
  have hds := digits_digitList d.digits
  obtain ⟨a, b, hsplit⟩ := exists_zeros_append (digitList d.digits)
  refine ⟨d.exponent + b, ?_⟩
  have hdigits : d.digits = 10 ^ b * ofDigitList (significant (digitList d.digits)) := by
    rw [significant, filter_isDigit hds]
    conv_lhs => rw [← ofDigitList_digitList d.digits, hsplit]
    rw [ofDigitList_append, ofDigitList_append, ofDigitList_zeros, ofDigitList_zeros,
      List.length_replicate]
    ring
  rw [Decimal.value, Decimal.value, zpow_add₀ (by norm_num), zpow_natCast]
  conv_lhs => rw [hdigits]
  push_cast
  ring

/-- **No decimal of fewer significant digits rounds to the double.** -/
theorem length_shortest_le_significant (hm : m ≠ .zero) (htop : m < .top)
    (h : m.IsNearest d.value) :
    (digitList m.shortest.digits).length ≤ (significant (digitList d.digits)).length := by
  obtain ⟨e, he⟩ := exists_significant d
  rw [he] at h
  refine (length_shortest_le hm htop h).trans ?_
  have hdigits := digits_significant (digitList d.digits)
  have hne : significant (digitList d.digits) ≠ [] := by
    intro hnil
    rw [hnil] at h
    exact digits_ne_zero_of_isNearest hm h rfl
  exact (length_digitList_le_iff (List.length_pos_of_ne_nil hne)).mpr (ofDigitList_lt hdigits)

/-- The canonical text of a finite magnitude: its shape, what it denotes, and how few its
significant digits are. -/
theorem canonical_text (htop : m < .top) :
    ∃ q, Canonical (m.text .plain).toList ∧ Denotes (m.text .plain).toList q ∧ m.IsNearest q ∧
      ∀ d : Decimal, m.IsNearest d.value →
        (significant (m.text .plain).toList).length ≤ (significant (digitList d.digits)).length := by
  by_cases hzero : m = .zero
  · subst hzero
    refine ⟨0, .whole whole_zero, .whole (by decide) (by decide), ?_, fun d _ => Nat.zero_le _⟩
    simpa using zero.isNearest_value
  · have htext : m.text .plain = m.shortest.positional "" := by
      simp [text, hzero, htop.ne, Decimal.text, NumberLayout.plain]
    have hdigits := digits_shortest_ne_zero hzero
    have hlast := digits_shortest_mod_ten hzero
    rw [htext, significant_positional hdigits hlast]
    exact ⟨_, canonical_positional hdigits hlast, denotes_positional _, m.isNearest_shortest,
      fun d hd => length_shortest_le_significant hzero htop hd⟩

end Magnitude

namespace Binary64

open Decimal Numeral

variable {x y : Binary64}

/-- **Every finite double is read back from its canonical text.** -/
theorem read?_plainText (hx : x.IsFinite) : read? x.plainText = some x := by
  rcases x with _ | ⟨minus, m⟩
  · exact hx.elim
  · obtain ⟨q, -, hdenotes, hnearest, -⟩ := Magnitude.canonical_text hx
    obtain ⟨d, hd, hd'⟩ := exists_magnitude hdenotes
    obtain rfl := hd'.unique hnearest
    exact read?_text minus hd

/-- **The canonical text of a finite double** is a minus for a negative one and a canonical numeral;
the double is the one nearest to what is written, is read back from it and shares it with no other;
and no decimal that rounds to it has fewer significant digits. -/
theorem plainText_shortest (hx : x.IsFinite) : ∃ (minus : Bool) (m : Magnitude) (body : List Char)
    (q : ℚ), x = .signed minus m ∧
      x.plainText.toList = (if minus then ['-'] else []) ++ body ∧
      Canonical body ∧ Denotes body q ∧ m.IsNearest q ∧
      read? x.plainText = some x ∧
      (∀ y : Binary64, y.IsFinite → y.plainText = x.plainText → y = x) ∧
      ∀ (negative : Bool) (d : Decimal), x.IsNearest (if negative then -d.value else d.value) →
        (significant body).length ≤ (significant (digitList d.digits)).length := by
  have hread := read?_plainText hx
  have hunique : ∀ y : Binary64, y.IsFinite → y.plainText = x.plainText → y = x := by
    intro y hy heq
    have := read?_plainText hy
    rw [heq, hread] at this
    exact (Option.some.inj this).symm
  rcases x with _ | ⟨minus, m⟩
  · exact hx.elim
  · obtain ⟨q, hcanonical, hdenotes, hnearest, hfewest⟩ := Magnitude.canonical_text hx
    refine ⟨minus, m, _, q, rfl, toList_text .plain minus m, hcanonical, hdenotes, hnearest, hread,
      hunique, fun negative d hd => hfewest d ?_⟩
    have habs : |if negative then -d.value else d.value| = d.value := by
      cases negative <;> simp [abs_of_nonneg d.value_nonneg]
    exact habs ▸ hd.1

/-- The double next to `-0.3` needs seventeen digits. -/
theorem plainText_shortest_next_to_three_tenths :
    (signed true ⟨0x3FD3333333333334, by decide⟩).plainText = "-0.30000000000000004" ∧
      read? "-0.30000000000000004" = some (signed true ⟨0x3FD3333333333334, by decide⟩) ∧
      ∀ (negative : Bool) (d : Decimal),
        (signed true ⟨0x3FD3333333333334, by decide⟩).IsNearest
          (if negative then -d.value else d.value) →
        17 ≤ (significant (digitList d.digits)).length := by
  have htext : (signed true ⟨0x3FD3333333333334, by decide⟩).plainText =
      "-0.30000000000000004" := by decide +kernel
  obtain ⟨minus, m, body, q, hsigned, hbody, -, -, -, hread, -, hfewest⟩ :=
    plainText_shortest (x := signed true ⟨0x3FD3333333333334, by decide⟩)
      (show (0x3FD3333333333334 : ℕ) < topRank by decide)
  obtain ⟨rfl, -⟩ := Binary64.signed.inj hsigned
  rw [htext] at hread hbody
  refine ⟨htext, hread, fun negative d hd => ?_⟩
  have hdigits : (significant body).length = 17 := by
    obtain rfl := List.append_cancel_left (show ['-'] ++ "0.30000000000000004".toList = _ from hbody)
    decide
  exact hdigits ▸ hfewest negative d hd

end Binary64

end FuzzyLogic
