import FuzzyLogic.Decimal.Reader
import FuzzyLogic.Proofs.Decimal.Value

/-!
# Proofs/Decimal/Numeral — what a numeral denotes

`Numeral.Denotes` says which texts are numerals without sign and exponent, and which rational each
of them stands for: digits, or digits with a point and at least one digit after it.  The reader
gives the decimal of that value, so that **what is read is the double nearest to what is written**
(`exists_magnitude`).
-/

namespace FuzzyLogic

/-! ## Runs of characters -/

namespace Text

variable {p : Char → Bool} {run rest : List Char}

/-- The text does not begin with a character of a class. -/
def Stops (p : Char → Bool) (cs : List Char) : Prop := ∀ c ∈ cs.head?, p c = false

@[simp] theorem stops_nil : Stops p [] := nofun

@[simp] theorem stops_cons {c : Char} : Stops p (c :: rest) ↔ p c = false := by simp [Stops]

theorem takeWhile_run (hrun : ∀ c ∈ run, p c = true) (hrest : Stops p rest) :
    (run ++ rest).takeWhile p = run := by
  rw [List.takeWhile_append_of_pos hrun]
  cases rest with
  | nil => simp
  | cons c cs => simp [stops_cons.mp hrest]

theorem dropWhile_run (hrun : ∀ c ∈ run, p c = true) (hrest : Stops p rest) :
    (run ++ rest).dropWhile p = rest := by
  rw [List.dropWhile_append_of_pos hrun]
  cases rest with
  | nil => simp
  | cons c cs => simp [stops_cons.mp hrest]

theorem stops_dropWhile (p : Char → Bool) (cs : List Char) : Stops p (cs.dropWhile p) := by
  induction cs with
  | nil => exact stops_nil
  | cons c cs ih =>
    rw [List.dropWhile_cons]
    split
    case isTrue => exact ih
    case isFalse h => exact stops_cons.mpr (Bool.eq_false_iff.mpr h)

end Text

namespace Numeral

open Decimal Text

/-! ## Numerals -/

/-- Digits only. -/
def Digits (ds : List Char) : Prop := ∀ c ∈ ds, isDigit c = true

instance (ds : List Char) : Decidable (Digits ds) :=
  decidable_of_iff (ds.all isDigit = true) List.all_eq_true

/-- A numeral and the rational it denotes. -/
inductive Denotes : List Char → ℚ → Prop
  | whole {ds} : ds ≠ [] → Digits ds → Denotes ds (ofDigitList ds)
  | fraction {ws fs} : Digits ws → fs ≠ [] → Digits fs →
      Denotes (ws ++ '.' :: fs) (ofDigitList ws + ofDigitList fs / 10 ^ fs.length)

variable {cs : List Char} {q : ℚ}

/-- Digits after digits: the first ones count for a power of ten. -/
theorem ofDigitList_append (ws fs : List Char) :
    ofDigitList (ws ++ fs) = 10 ^ fs.length * ofDigitList ws + ofDigitList fs := by
  rw [ofDigitList, Nat.ofDigitChars_append, Nat.ofDigitChars_eq_ofDigitChars_zero]
  rfl

theorem value_ofParts (ws fs : List Char) :
    (ofParts ws fs 0).value = ofDigitList ws + ofDigitList fs / 10 ^ fs.length := by
  rw [value, ofParts, ofDigitList_append, zero_sub, zpow_neg, zpow_natCast]
  push_cast
  field_simp

/-- A numeral begins with a digit or the point. -/
theorem Denotes.exists_start (h : Denotes cs q) :
    ∃ c rest, cs = c :: rest ∧ (isDigit c = true ∨ c = '.') := by
  cases h with
  | whole hne hds =>
    obtain ⟨c, rest, rfl⟩ := List.exists_cons_of_ne_nil hne
    exact ⟨c, rest, rfl, .inl (hds c List.mem_cons_self)⟩
  | @fraction ws fs hws hne hfs =>
    cases ws with
    | nil => exact ⟨'.', fs, rfl, .inr rfl⟩
    | cons c ws => exact ⟨c, _, rfl, .inl (hws c List.mem_cons_self)⟩

/-- Numerals consist of digits and points. -/
theorem Denotes.digit_or_point (h : Denotes cs q) : ∀ c ∈ cs, isDigit c = true ∨ c = '.' := by
  intro c hc
  cases h with
  | whole _ hds => exact .inl (hds c hc)
  | fraction hws _ hfs =>
    rcases List.mem_append.mp hc with hc | hc
    · exact .inl (hws c hc)
    · exact (List.mem_cons.mp hc).symm.imp_left (hfs c)

/-! ## Reading numerals -/

theorem read?_whole_append {ws rest : List Char} (hne : ws ≠ []) (hws : Digits ws)
    (hrest : Stops isDigit rest) (hpoint : ∀ after, rest ≠ '.' :: after) :
    read? (ws ++ rest) = (readExponent? rest).map (ofParts ws []) := by
  simp only [read?, takeWhile_run hws hrest, dropWhile_run hws hrest]
  exact if_neg (by simp [hne])

theorem read?_fraction_append {ws fs rest : List Char} (hws : Digits ws) (hne : fs ≠ [])
    (hfs : Digits fs) (hrest : Stops isDigit rest) :
    read? (ws ++ '.' :: (fs ++ rest)) = (readExponent? rest).map (ofParts ws fs) := by
  have hpoint : Stops isDigit ('.' :: (fs ++ rest)) := stops_cons.mpr (by decide)
  simp only [read?, takeWhile_run hws hpoint, dropWhile_run hws hpoint, takeWhile_run hfs hrest,
    dropWhile_run hfs hrest]
  exact if_neg (by simp [hne])

theorem read?_whole {ds : List Char} (hne : ds ≠ []) (hds : Digits ds) :
    read? ds = some (ofParts ds [] 0) := by
  have hnone : ∀ after, [] ≠ '.' :: after := fun after h => List.cons_ne_nil '.' after h.symm
  simpa [readExponent?] using read?_whole_append hne hds stops_nil hnone

theorem read?_fraction {ws fs : List Char} (hws : Digits ws) (hne : fs ≠ []) (hfs : Digits fs) :
    read? (ws ++ '.' :: fs) = some (ofParts ws fs 0) := by
  simpa [readExponent?] using read?_fraction_append hws hne hfs stops_nil

/-- A numeral is read as a decimal of the value it denotes. -/
theorem exists_read? (h : Denotes cs q) : ∃ d, read? cs = some d ∧ d.value = q := by
  cases h with
  | whole hne hds =>
    refine ⟨_, read?_whole hne hds, ?_⟩
    rw [value_ofParts]
    simp [ofDigitList]
  | fraction hws hne hfs => exact ⟨_, read?_fraction hws hne hfs, value_ofParts _ _⟩

theorem Denotes.unique {r : ℚ} (hq : Denotes cs q) (hr : Denotes cs r) : q = r := by
  obtain ⟨d, hd, rfl⟩ := exists_read? hq
  obtain ⟨e, he, rfl⟩ := exists_read? hr
  rw [hd, Option.some_inj] at he
  rw [he]

/-- **A numeral is read as the double nearest to what it denotes.** -/
theorem exists_magnitude (h : Denotes cs q) :
    ∃ d, read? cs = some d ∧ d.toMagnitude.IsNearest q := by
  obtain ⟨d, hd, rfl⟩ := exists_read? h
  exact ⟨d, hd, d.isNearest_toMagnitude⟩

end Numeral

end FuzzyLogic
