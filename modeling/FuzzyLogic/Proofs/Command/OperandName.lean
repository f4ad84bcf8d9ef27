import FuzzyLogic.Command.Assignment
import FuzzyLogic.Proofs.Decimal.ExactText
import FuzzyLogic.Proofs.Formula.Tiling

/-!
# Proofs/Command/OperandName — the names of assignments are the names of formulas

An assignment is read as a name and a value exactly if its text is a name between white space, an
equals sign and the text of a number (`parseAssignment_eq_ok_iff`).  What counts as a name is asked
of the whole text between the white space: ASCII characters only, and an identifier.  The scanner of
formulas asks it of a text that begins anywhere and goes on as long as it can.  **Both take the same
texts for names** (`isOperandName_iff_ascii`, `tokenize_eq_name_iff`), so that every operand of a
formula can be assigned a value, and every name assigned can be an operand.
-/

namespace FuzzyLogic

namespace Text

variable {before cs behind : List Char}

/-- White space is removed around what has none. -/
theorem trim_append (hbefore : ∀ c ∈ before, isBlank c = true) (hcs : ∀ c ∈ cs, isBlank c = false)
    (hne : cs ≠ []) (hbehind : ∀ c ∈ behind, isBlank c = true) :
    trim (before ++ (cs ++ behind)) = cs := by
  have hfirst : Stops isBlank (cs ++ behind) := by
    obtain ⟨c, cs, rfl⟩ := List.exists_cons_of_ne_nil hne
    exact stops_cons.mpr (hcs c List.mem_cons_self)
  have hlast : Stops isBlank cs.reverse := fun c hc =>
    hcs c (List.mem_reverse.mp (List.mem_of_mem_head? hc))
  rw [trim, dropWhile_run hbefore hfirst, trimEnd, List.reverse_append,
    dropWhile_run (fun c hc => hbehind c (List.mem_reverse.mp hc)) hlast, List.reverse_reverse]

/-- What is removed around a text is white space. -/
theorem exists_eq_append_trim (cs : List Char) : ∃ before behind,
    cs = before ++ (trim cs ++ behind) ∧ (∀ c ∈ before, isBlank c = true) ∧
      ∀ c ∈ behind, isBlank c = true := by
  have hblank : ∀ ds : List Char, ∀ c ∈ ds.takeWhile isBlank, isBlank c = true := fun ds =>
    List.all_eq_true.mp List.all_takeWhile
  refine ⟨cs.takeWhile isBlank, ((cs.dropWhile isBlank).reverse.takeWhile isBlank).reverse, ?_,
    hblank cs, fun c hc => hblank _ c (List.mem_reverse.mp hc)⟩
  rw [trim, trimEnd, ← List.reverse_append, List.takeWhile_append_dropWhile, List.reverse_reverse,
    List.takeWhile_append_dropWhile]

end Text

namespace Token

variable {cs : List Char} {c : Char}

theorem IsIdentifier.isIdentChar (h : IsIdentifier cs) : ∀ c ∈ cs, isIdentChar c = true := by
  obtain ⟨c, cs, rfl, hc, hcs⟩ := h
  exact List.forall_mem_cons.mpr ⟨by rw [Token.isIdentChar, hc, Bool.true_or], hcs⟩

theorem IsIdentifier.ne_nil (h : IsIdentifier cs) : cs ≠ [] := by
  obtain ⟨c, cs, rfl, -⟩ := h
  exact List.cons_ne_nil c cs

/-- No white space stands in names. -/
theorem isBlank_of_isIdentChar (h : isIdentChar c = true) : Text.isBlank c = false := by
  rcases Bool.or_eq_true_iff.mp h with h | h
  · exact isBlank_of_isIdentStart h
  · exact isBlank_of_isDigit h

/-- The characters of names are ASCII characters. -/
theorem toNat_lt_of_isNameChar (h : IsNameChar c) : c.toNat < 0x80 := by
  have hchar := isIdentChar_iff.mpr h
  simp only [isIdentChar, isIdentStart, Decimal.isDigit, Bool.or_eq_true, Bool.and_eq_true,
    beq_iff_eq, decide_eq_true_eq, Char.le_def, UInt32.le_iff_toNat_le] at hchar
  rcases hchar with ((rfl | h) | h) | h
  · decide
  all_goals exact Nat.lt_of_le_of_lt h.2 (by decide)

/-- The names of formulas are names. -/
theorem isIdentifier_of_mem {source : String} {ts : List Token} {t : Token}
    (hts : tokenize source = .ok ts) (ht : t ∈ ts) (hkind : t.kind = .ident) :
    IsIdentifier t.text.toList := by
  obtain ⟨us, hus, rfl⟩ := tokenize_eq_ok_iff.mp hts
  rcases List.mem_append.mp ht with ht | ht
  · obtain ⟨rest, hlexeme⟩ := hus.exists_lexeme t ht
    rw [hkind] at hlexeme
    exact hlexeme.isIdentifier
  · obtain rfl := List.mem_singleton.mp ht
    cases hkind

end Token

open Text (isBlank)
open Token (IsIdentifier IsNameChar isIdentChar isIdentStart)

variable {name text : String} {value : Binary64} {c : Char}

/-! ## Names -/

theorem isOperandName_iff : isOperandName name = true ↔ IsIdentifier name.toList := by
  unfold isOperandName
  split
  · rename_i h
    rw [h]
    refine iff_of_false Bool.false_ne_true ?_
    rintro ⟨d, ds, hnil, -⟩
    exact List.cons_ne_nil d ds hnil.symm
  · rename_i c rest h
    rw [h, Bool.and_eq_true, List.all_eq_true]
    constructor
    · rintro ⟨hc, hrest⟩
      exact ⟨c, rest, rfl, hc, hrest⟩
    · rintro ⟨d, ds, hsplit, hd, hds⟩
      obtain ⟨rfl, rfl⟩ := List.cons_eq_cons.mp hsplit
      exact ⟨hd, hds⟩

/-- **The names are the ASCII identifiers**, whatever characters beyond ASCII begin an identifier or
go on with one. -/
theorem isOperandName_iff_ascii {begins continues : Char → Prop}
    (hbegins : ∀ c : Char, c.toNat < 0x80 → (begins c ↔ c = '_' ∨ c.isAlpha = true))
    (hcontinues : ∀ c : Char, c.toNat < 0x80 → (continues c ↔ IsNameChar c)) :
    isOperandName name = true ↔ (∀ c ∈ name.toList, c.toNat < 0x80) ∧
      ∃ c cs, name.toList = c :: cs ∧ begins c ∧ ∀ d ∈ cs, continues d := by
  rw [isOperandName_iff, Token.isIdentifier_iff]
  constructor
  · rintro ⟨c, cs, hname, hc, hcs⟩
    have hascii : ∀ d ∈ c :: cs, d.toNat < 0x80 := by
      refine List.forall_mem_cons.mpr ⟨Token.toNat_lt_of_isNameChar ?_, fun d hd =>
        Token.toNat_lt_of_isNameChar (hcs d hd)⟩
      exact hc.imp_right fun h => by rw [Char.isAlphanum, h, Bool.true_or]
    rw [hname]
    obtain ⟨hfirst, hrest⟩ := List.forall_mem_cons.mp hascii
    exact ⟨hascii, c, cs, rfl, (hbegins c hfirst).mpr hc, fun d hd =>
      (hcontinues d (hrest d hd)).mpr (hcs d hd)⟩
  · rintro ⟨hascii, c, cs, hname, hc, hcs⟩
    rw [hname] at hascii
    obtain ⟨hfirst, hrest⟩ := List.forall_mem_cons.mp hascii
    exact ⟨c, cs, hname, (hbegins c hfirst).mp hc, fun d hd =>
      (hcontinues d (hrest d hd)).mp (hcs d hd)⟩

/-- **A text is a name exactly if the scanner makes one name of it.** -/
theorem tokenize_eq_name_iff :
    tokenize name = .ok [⟨.ident, name, 0⟩, .stop name.length] ↔ IsIdentifier name.toList := by
  constructor
  · intro h
    exact Token.isIdentifier_of_mem (t := ⟨.ident, name, 0⟩) h List.mem_cons_self rfl
  · intro h
    have htokens : Token.Tokenizes 0 (name.toList ++ []) [⟨.ident, String.ofList name.toList, 0⟩] :=
      .lexeme (.ident h Text.stops_nil) .done
    rw [List.append_nil, String.ofList_toList] at htokens
    exact Token.tokenize_eq_ok_iff.mpr ⟨_, htokens, rfl⟩

/-! ## Assignments -/

/-- **What is read as an assignment.** -/
theorem parseAssignment_eq_ok_iff : parseAssignment text = .ok (name, value) ↔
    ∃ before behind raw, text.toList = (before ++ (name.toList ++ behind)) ++ '=' :: raw ∧
      (∀ c ∈ before, isBlank c = true) ∧ (∀ c ∈ behind, isBlank c = true) ∧
      IsIdentifier name.toList ∧ Binary64.read? (String.ofList raw) = some value := by
  constructor
  · intro h
    have hsplit := (List.takeWhile_append_dropWhile (p := (· != '=')) (l := text.toList)).symm
    have hstops := Text.stops_dropWhile (· != '=') text.toList
    unfold parseAssignment at h
    dsimp only at h
    split at h
    · cases h
    rename_i c after hdrop
    rw [hdrop] at hsplit hstops
    obtain rfl : c = '=' := by simpa using Text.stops_cons.mp hstops
    obtain ⟨before, behind, htrim, hbefore, hbehind⟩ :=
      Text.exists_eq_append_trim (text.toList.takeWhile (· != '='))
    split at h
    · cases h
    split at h
    · cases h
    rename_i hname
    split at h
    · rename_i v hvalue
      obtain ⟨rfl, rfl⟩ := Prod.mk.inj (Except.ok.inj h)
      rw [Bool.not_eq_true', Bool.not_eq_false, isOperandName_iff] at hname
      rw [String.toList_ofList] at hname ⊢
      exact ⟨before, behind, after, by rw [← htrim]; exact hsplit, hbefore, hbehind, hname, hvalue⟩
    · cases h
  · rintro ⟨before, behind, raw, htext, hbefore, hbehind, hname, hvalue⟩
    have hchars := hname.isIdentChar
    have hfront : ∀ c ∈ before ++ (name.toList ++ behind), (c != '=') = true := by
      intro c hc
      refine bne_iff_ne.mpr ?_
      rintro rfl
      simp only [List.mem_append] at hc
      rcases hc with hc | hc | hc
      · exact absurd (hbefore _ hc) (by decide)
      · exact absurd (hchars _ hc) (by decide)
      · exact absurd (hbehind _ hc) (by decide)
    have hpoint : Text.Stops (· != '=') ('=' :: raw) := Text.stops_cons.mpr (by decide)
    have htrim := Text.trim_append hbefore (fun c hc => Token.isBlank_of_isIdentChar (hchars c hc))
      hname.ne_nil hbehind
    have hempty : name.isEmpty = false := by simpa using hname.ne_nil
    simp only [parseAssignment, htext, Text.takeWhile_run hfront hpoint,
      Text.dropWhile_run hfront hpoint, htrim, String.ofList_toList, isOperandName_iff.mpr hname,
      hvalue, hempty]
    rfl

/-- What is not read as an assignment is refused as one. -/
theorem kind_of_parseAssignment {f : Fault} (h : parseAssignment text = .error f) :
    f.kind = .argumentTypeError := by
  unfold parseAssignment at h
  dsimp only at h
  repeat' split at h
  all_goals cases h
  all_goals rfl

/-- **Assignments and formulas have the same names.**

* The names that values can be assigned to are those that occur in formulas.
* A name to which an assignment assigns a value is not empty, and a single token to formulas.
* A name of a formula, between white space, is assigned every double by its exact text.
* What is not read as an assignment is refused as a bad argument, and for no other reason. -/
theorem assigned_names_are_operand_names :
    (∀ name, (∃ text value, parseAssignment text = .ok (name, value)) ↔
      ∃ source ts t, tokenize source = .ok ts ∧ t ∈ ts ∧ t.kind = .ident ∧ t.text = name) ∧
    (∀ text name value, parseAssignment text = .ok (name, value) →
      name ≠ "" ∧ tokenize name = .ok [⟨.ident, name, 0⟩, .stop name.length]) ∧
    (∀ source ts t, tokenize source = .ok ts → t ∈ ts → t.kind = .ident →
      ∀ before behind : String, (∀ c ∈ before.toList, isBlank c = true) →
        (∀ c ∈ behind.toList, isBlank c = true) → ∀ x : Binary64,
          parseAssignment (before ++ t.text ++ behind ++ "=" ++ x.exactText) = .ok (t.text, x)) ∧
    ∀ text fault, parseAssignment text = .error fault → fault.kind = .argumentTypeError := by
  have hsingle : ∀ text name value, parseAssignment text = .ok (name, value) →
      name ≠ "" ∧ tokenize name = .ok [⟨.ident, name, 0⟩, .stop name.length] := by
    intro text name value h
    obtain ⟨-, -, -, -, -, -, hname, -⟩ := parseAssignment_eq_ok_iff.mp h
    refine ⟨?_, tokenize_eq_name_iff.mpr hname⟩
    rintro rfl
    exact hname.ne_nil rfl
  have hassigned : ∀ source ts t, tokenize source = .ok ts → t ∈ ts → t.kind = .ident →
      ∀ before behind : String, (∀ c ∈ before.toList, isBlank c = true) →
        (∀ c ∈ behind.toList, isBlank c = true) → ∀ x : Binary64,
          parseAssignment (before ++ t.text ++ behind ++ "=" ++ x.exactText) = .ok (t.text, x) := by
    intro source ts t hts ht hkind before behind hbefore hbehind x
    refine parseAssignment_eq_ok_iff.mpr ⟨_, _, x.exactText.toList, ?_, hbefore, hbehind,
      Token.isIdentifier_of_mem hts ht hkind, ?_⟩
    · simp
    · rw [String.ofList_toList, Binary64.read?_exactText]
  refine ⟨fun name => ⟨?_, ?_⟩, hsingle, hassigned, fun _ _ => kind_of_parseAssignment⟩
  · rintro ⟨text, value, h⟩
    exact ⟨name, _, _, (hsingle text name value h).2, List.mem_cons_self, rfl, rfl⟩
  · rintro ⟨source, ts, t, hts, ht, hkind, rfl⟩
    have hnone : ∀ c ∈ "".toList, isBlank c = true := fun c hc => absurd hc List.not_mem_nil
    exact ⟨_, Binary64.one, hassigned source ts t hts ht hkind "" "" hnone hnone _⟩

/-- The name in `!half` can be assigned to, with white space around it. -/
theorem assigned_half :
    tokenize "!half" = .ok [⟨.not, "!", 0⟩, ⟨.ident, "half", 1⟩, .stop 5] ∧
      parseAssignment "\t half =1.0" = .ok ("half", .one) ∧
      tokenize "half" = .ok [⟨.ident, "half", 0⟩, .stop 4] ∧
      parseAssignment "2half=1.0" = .error (.badOperandName "2half") ∧
      (Fault.badOperandName "2half").kind = .argumentTypeError := by
  have htokens : tokenize "!half" = .ok [⟨.not, "!", 0⟩, ⟨.ident, "half", 1⟩, .stop 5] := by cbv
  have hrefused : parseAssignment "2half=1.0" = .error (.badOperandName "2half") := rfl
  have htext : "\t " ++ "half" ++ " " ++ "=" ++ Binary64.one.exactText = "\t half =1.0" := by
    decide +kernel
  obtain ⟨-, hsingle, hassigned, hkind⟩ := assigned_names_are_operand_names
  have hhalf : parseAssignment ("\t " ++ "half" ++ " " ++ "=" ++ Binary64.one.exactText) =
      .ok ("half", .one) :=
    hassigned "!half" _ ⟨.ident, "half", 1⟩ htokens (by simp) rfl "\t " " "
      (List.all_eq_true.mp (by decide)) (List.all_eq_true.mp (by decide)) .one
  rw [htext] at hhalf
  exact ⟨htokens, hhalf, (hsingle _ _ _ hhalf).2, hrefused, hkind _ _ hrefused⟩

end FuzzyLogic
