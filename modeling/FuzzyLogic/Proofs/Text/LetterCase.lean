import FuzzyLogic.Text.LetterCase

/-!
# Proofs/Text/LetterCase — the lower case of a text is in lower case

Taking the lower case twice is taking it once (`lower_lower`), so that what is filed under the lower
case of a name is found under its own key.

A code point is **settled** if no run of the table moves it and it has no expansion.  Settled
characters stay, whatever stands around them; and what a run gives is settled, because no run of the
table leads into another one (`runs_avoid`).
-/

namespace FuzzyLogic.Text

namespace CaseRun

/-- Whether a code point is in a run. -/
def contains (r : CaseRun) (code : Nat) : Bool :=
  r.first ≤ code && code ≤ r.last && (code - r.first) % r.stride == 0

/-- The first code point that a run leads to. -/
def start (r : CaseRun) : Nat := (r.first + r.distance).toNat

/-- The last code point that a run leads to. -/
def stop (r : CaseRun) : Nat := (r.last + r.distance).toNat

/-- No code point that one run leads to is in another one; where the ranges do not overlap no code
point has to be looked at. -/
def avoids (r s : CaseRun) : Bool :=
  Nat.blt r.stop s.first || Nat.blt s.last r.start ||
    (List.range (r.stop - r.start + 1)).all fun k => k % r.stride != 0 || !s.contains (r.start + k)

/-- A run leads from one character to another, and not below zero. -/
def isSound (r : CaseRun) : Bool :=
  Nat.ble r.first r.last && decide (0 ≤ r.first + r.distance) &&
    (Nat.blt r.stop 0xD800 || (Nat.ble 0xE000 r.start && Nat.blt r.stop 0x110000))

variable {r s : CaseRun} {code : Nat}

theorem contains_iff : r.contains code = true ↔
    r.first ≤ code ∧ code ≤ r.last ∧ (code - r.first) % r.stride = 0 := by
  simp [contains, and_assoc]

/-- A run moves what it contains by its distance, into the range from start to stop. -/
theorem image_eq (hr : r.isSound = true) (h : r.contains code = true) :
    ((code : Int) + r.distance).toNat = r.start + (code - r.first) ∧
      r.start + (code - r.first) ≤ r.stop := by
  obtain ⟨hfirst, hlast, -⟩ := contains_iff.mp h
  simp only [isSound, Bool.and_eq_true, decide_eq_true_eq] at hr
  rw [start, stop]
  omega

theorem not_contains_image (hr : r.isSound = true) (h : r.contains code = true)
    (hs : r.avoids s = true) : s.contains ((code : Int) + r.distance).toNat = false := by
  obtain ⟨heq, hstop⟩ := image_eq hr h
  obtain ⟨hfirst, -, hstride⟩ := contains_iff.mp h
  rw [heq, Bool.eq_false_iff]
  intro hcontains
  obtain ⟨hlower, hupper, -⟩ := contains_iff.mp hcontains
  simp only [avoids, Bool.or_eq_true, Nat.blt_eq, List.all_eq_true, List.mem_range] at hs
  rcases hs with (hbelow | habove) | hall
  · omega
  · omega
  · have := hall (code - r.first) (by omega)
    simp [hstride, hcontains] at this

end CaseRun

/-! ## The table -/

/-- The runs of the table, and the one letter that becomes two characters. -/
def movedRuns : List CaseRun := ⟨0x130, 0x130, 1, 0⟩ :: lowerRuns

/-- **No run leads into a run.** -/
theorem runs_avoid : (lowerRuns.all fun r => movedRuns.all r.avoids) = true := by decide +kernel

theorem runs_sound : (lowerRuns.all CaseRun.isSound) = true := by decide +kernel

/-- No run contains a code point. -/
def Settled (code : Nat) : Prop := ∀ r ∈ movedRuns, r.contains code = false

instance (code : Nat) : Decidable (Settled code) :=
  inferInstanceAs (Decidable (∀ r ∈ movedRuns, r.contains code = false))

variable {r : CaseRun} {c d : Char} {before after cs : List Char}

/-- What a run leads to is settled. -/
theorem settled_image (hr : r ∈ lowerRuns) {code : Nat} (h : r.contains code = true) :
    Settled ((code : Int) + r.distance).toNat := by
  intro s hs
  have havoid := List.all_eq_true.mp (List.all_eq_true.mp runs_avoid r hr) s hs
  exact CaseRun.not_contains_image (List.all_eq_true.mp runs_sound r hr) h havoid

/-- A run leads to a settled character. -/
theorem settled_ofNat_image (hr : r ∈ lowerRuns) {code : Nat} (h : r.contains code = true) :
    Settled (Char.ofNat ((code : Int) + r.distance).toNat).toNat := by
  have hsound := List.all_eq_true.mp runs_sound r hr
  obtain ⟨heq, hstop⟩ := CaseRun.image_eq hsound h
  simp only [CaseRun.isSound, Bool.and_eq_true, Bool.or_eq_true, Nat.blt_eq, Nat.ble_eq,
    decide_eq_true_eq] at hsound
  have hvalid : Nat.isValidChar ((code : Int) + r.distance).toNat := by
    rw [Nat.isValidChar]
    omega
  have htoNat : (Char.ofNat ((code : Int) + r.distance).toNat).toNat =
      ((code : Int) + r.distance).toNat := by
    rw [Char.ofNat, dif_pos hvalid]
    rfl
  rw [htoNat]
  exact settled_image hr h

/-! ## Settled characters -/

theorem not_settled_sigma : ¬Settled 0x3A3 := by decide +kernel

theorem not_settled_dotted : ¬Settled 0x130 := by decide +kernel

/-- The capital letters from `A` to `Z`. -/
def capitals : CaseRun := ⟨0x41, 0x5A, 1, 32⟩

theorem contains_capitals : capitals.contains c.toNat = ('A' ≤ c && c ≤ 'Z') := by
  rw [CaseRun.contains, capitals, Nat.mod_one]
  exact Bool.and_true _

/-- Of the first 128 characters only these are in a run. -/
theorem movedRuns_behind :
    ∀ r ∈ movedRuns, r.first = 0x41 ∧ r.last = 0x5A ∨ 0x80 ≤ r.first := by decide +kernel

/-- A settled character stays, whatever stands around it. -/
theorem lowerChar_of_settled (h : Settled c.toNat) : lowerChar before c after = [c] := by
  have hcapital : ('A' ≤ c && c ≤ 'Z') = false :=
    contains_capitals.symm.trans (h capitals (List.mem_cons_of_mem _ List.mem_cons_self))
  have hdistance : caseDistance? lowerRuns c.toNat = none := by
    rw [caseDistance?, Option.map_eq_none_iff, List.find?_eq_none]
    exact fun r hr => Bool.eq_false_iff.mp (h r (List.mem_cons_of_mem _ hr))
  unfold lowerChar
  split
  · rw [hcapital, if_neg Bool.false_ne_true]
  split
  case isTrue hdotted => exact absurd (hdotted ▸ h) not_settled_dotted
  split
  case isTrue hsigma => exact absurd (hsigma ▸ h) not_settled_sigma
  rw [hdistance, Option.getD_none, Int.add_zero, Int.toNat_natCast, Char.ofNat_toNat]

/-- All that the lower case of a character consists of is settled. -/
theorem settled_of_mem_lowerChar (h : d ∈ lowerChar before c after) : Settled d.toNat := by
  unfold lowerChar at h
  split at h
  case isTrue hascii =>
    rw [List.mem_singleton.mp h]
    split
    case isTrue hcapital =>
      exact settled_ofNat_image List.mem_cons_self (contains_capitals.trans hcapital)
    case isFalse hcapital =>
      intro r hr
      rw [Bool.eq_false_iff]
      intro hmem
      obtain ⟨hfirst, hlast, -⟩ := CaseRun.contains_iff.mp hmem
      refine hcapital (contains_capitals.symm.trans (CaseRun.contains_iff.mpr ?_))
      rcases movedRuns_behind r hr with ⟨hA, hZ⟩ | hbehind
      · rw [hA] at hfirst
        rw [hZ] at hlast
        exact ⟨hfirst, hlast, Nat.mod_one _⟩
      · omega
  split at h
  case isTrue =>
    rcases List.mem_cons.mp h with rfl | h
    · decide +kernel
    · rw [List.mem_singleton.mp h]
      decide +kernel
  case isFalse hdotted =>
  split at h
  case isTrue =>
    rw [List.mem_singleton.mp h]
    split <;> decide +kernel
  case isFalse =>
  rw [List.mem_singleton.mp h]
  cases hfind : lowerRuns.find? (·.contains c.toNat) with
  | none =>
    have hdistance : caseDistance? lowerRuns c.toNat = none := congrArg (Option.map _) hfind
    rw [hdistance, Option.getD_none, Int.add_zero, Int.toNat_natCast, Char.ofNat_toNat]
    intro r hr
    rcases List.mem_cons.mp hr with rfl | hr
    · rw [Bool.eq_false_iff]
      intro hmem
      obtain ⟨hfirst, hlast, -⟩ := CaseRun.contains_iff.mp hmem
      exact hdotted (Nat.le_antisymm hlast hfirst)
    · exact Bool.eq_false_iff.mpr (List.find?_eq_none.mp hfind r hr)
  | some r =>
    have hdistance : caseDistance? lowerRuns c.toNat = some r.distance :=
      congrArg (Option.map _) hfind
    rw [hdistance, Option.getD_some]
    have hmem : r.contains c.toNat = true :=
      List.find?_some (p := fun r : CaseRun => r.contains c.toNat) hfind
    exact settled_ofNat_image (List.mem_of_find?_eq_some hfind) hmem

theorem settled_of_mem_lowerAfter (h : d ∈ lowerAfter before cs) : Settled d.toNat := by
  induction cs generalizing before with
  | nil => cases h
  | cons c rest ih =>
    rw [lowerAfter] at h
    exact (List.mem_append.mp h).elim settled_of_mem_lowerChar ih

theorem lowerAfter_of_settled (h : ∀ c ∈ cs, Settled c.toNat) : lowerAfter before cs = cs := by
  induction cs generalizing before with
  | nil => rfl
  | cons c rest ih =>
    obtain ⟨hc, hrest⟩ := List.forall_mem_cons.mp h
    rw [lowerAfter, lowerChar_of_settled hc, ih hrest]
    rfl

/-- **The lower case of a text is in lower case.** -/
theorem lower_lower (s : String) : lower (lower s) = lower s := by
  rw [lower, lower, String.toList_ofList, lowerAfter_of_settled fun c => settled_of_mem_lowerAfter]

end FuzzyLogic.Text
