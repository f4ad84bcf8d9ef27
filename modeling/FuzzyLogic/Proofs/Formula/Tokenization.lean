import FuzzyLogic.Formula.Lexer
import FuzzyLogic.Proofs.Decimal.Numeral
import FuzzyLogic.Proofs.Outcome

/-!
# Proofs/Formula/Tokenization — which tokens a text has

`Token.Lexeme kind text rest` says that `text` is a token of a kind that ends before `rest`: what
the kinds are written with, and that identifiers and numbers are as long as they can be.
`Token.Tokenizes` splits a whole text into blanks and lexemes.

**The scanner finds exactly these tokens** (`scan_eq_ok_iff`): whatever it returns is a split of the
text, and whatever split a text has is returned.
-/

namespace FuzzyLogic

namespace Token

open Decimal Text Numeral

/-! ## Lexemes -/

/-- A letter or underscore, and then any of these and digits. -/
def IsIdentifier (text : List Char) : Prop :=
  ∃ c cs, text = c :: cs ∧ isIdentStart c = true ∧ ∀ d ∈ cs, isIdentChar d = true

/-- A token of a kind, and text before which it may end. -/
inductive Lexeme : TokenKind → List Char → List Char → Prop
  | symbol {c kind rest} : symbolKind? c = some kind → Lexeme kind [c] rest
  | ident {text rest} : IsIdentifier text → Stops isIdentChar rest → Lexeme .ident text rest
  | number {text q rest} : Denotes text q → endsNumber rest = true → Lexeme .number text rest

/-- A text split into blanks and lexemes: the tokens, the first of which begins at some place or
after it. -/
inductive Tokenizes : Nat → List Char → List Token → Prop
  | done {position} : Tokenizes position [] []
  | blank {position c cs ts} : isBlank c = true → Tokenizes (position + 1) cs ts →
      Tokenizes position (c :: cs) ts
  | lexeme {position kind text rest ts} : Lexeme kind text rest →
      Tokenizes (position + text.length) rest ts →
      Tokenizes position (text ++ rest) (⟨kind, String.ofList text, position⟩ :: ts)

/-! ## Classes of characters -/

variable {c : Char} {cs text rest : List Char} {kind : TokenKind}

/-- The characters that tokens begin with are visible ASCII characters. -/
theorem isBlank_eq_false (h : 0x20 < c.toNat) (h' : c.toNat < 0x7F) : isBlank c = false := by
  simp only [isBlank, Bool.or_eq_false_iff, Bool.and_eq_false_imp, beq_eq_false_iff_ne,
    decide_eq_true_eq, decide_eq_false_iff_not]
  omega

theorem isBlank_of_isDigit (h : isDigit c = true) : isBlank c = false := by
  simp only [isDigit, Bool.and_eq_true, decide_eq_true_eq, Char.le_def, UInt32.le_iff_toNat_le] at h
  exact isBlank_eq_false (Nat.lt_of_lt_of_le (by decide) h.1) (Nat.lt_of_le_of_lt h.2 (by decide))

theorem isBlank_of_isIdentStart (h : isIdentStart c = true) : isBlank c = false := by
  simp only [isIdentStart, Bool.or_eq_true, Bool.and_eq_true, beq_iff_eq, decide_eq_true_eq,
    Char.le_def, UInt32.le_iff_toNat_le] at h
  rcases h with (rfl | h) | h
  · decide
  · exact isBlank_eq_false (Nat.lt_of_lt_of_le (by decide) h.1) (Nat.lt_of_le_of_lt h.2 (by decide))
  · exact isBlank_eq_false (Nat.lt_of_lt_of_le (by decide) h.1) (Nat.lt_of_le_of_lt h.2 (by decide))

theorem symbol_cases (h : symbolKind? c = some kind) :
    c = '!' ∨ c = '~' ∨ c = '&' ∨ c = '|' ∨ c = '(' ∨ c = ')' := by
  unfold symbolKind? at h
  split at h <;> simp_all

theorem isBlank_of_symbol (h : symbolKind? c = some kind) : isBlank c = false := by
  rcases symbol_cases h with rfl | rfl | rfl | rfl | rfl | rfl <;> decide

/-- Symbols begin neither identifiers nor numbers. -/
theorem symbolKind?_eq_none (h : isIdentStart c = true ∨ isDigit c = true ∨ c = '.') :
    symbolKind? c = none := by
  rcases hk : symbolKind? c with _ | kind
  · rfl
  · exfalso
    rcases symbol_cases hk with rfl | rfl | rfl | rfl | rfl | rfl <;> revert h <;> decide

/-- Digits and the point begin no identifier. -/
theorem isIdentStart_eq_false (h : isDigit c = true ∨ c = '.') : isIdentStart c = false := by
  rcases h with h | rfl
  · simp only [isDigit, Bool.and_eq_true, decide_eq_true_eq, Char.le_def,
      UInt32.le_iff_toNat_le] at h
    have hlt : c.toNat ≤ 57 := h.2
    simp only [isIdentStart, Bool.or_eq_false_iff, Bool.and_eq_false_imp, beq_eq_false_iff_ne,
      decide_eq_true_eq, decide_eq_false_iff_not, Char.le_def, UInt32.le_iff_toNat_le]
    refine ⟨⟨?_, ?_⟩, ?_⟩
    · rintro rfl
      exact absurd hlt (by decide)
    · intro h'
      exact absurd (Nat.le_trans h' hlt) (by decide)
    · intro h'
      exact absurd (Nat.le_trans h' hlt) (by decide)
  · decide

/-- Symbols are neither identifiers nor numbers. -/
theorem symbolKind?_ne (hkind : kind = .ident ∨ kind = .number) : symbolKind? c ≠ some kind := by
  rcases hkind with rfl | rfl <;> unfold symbolKind? <;> split <;> simp

theorem Lexeme.isIdentifier (h : Lexeme .ident text rest) : IsIdentifier text := by
  cases h with
  | symbol hc => exact absurd hc (symbolKind?_ne (.inl rfl))
  | ident hident _ => exact hident

theorem Lexeme.exists_denotes (h : Lexeme .number text rest) : ∃ q, Denotes text q := by
  cases h with
  | symbol hc => exact absurd hc (symbolKind?_ne (.inr rfl))
  | number hq _ => exact ⟨_, hq⟩

/-! ## Stray characters -/

/-- Stands in no text that splits into tokens. -/
def isStray (c : Char) : Bool :=
  !isBlank c && (symbolKind? c).isNone && !isIdentChar c && c != '.'

theorem isStray_iff : isStray c = true ↔
    isBlank c = false ∧ symbolKind? c = none ∧ isIdentChar c = false ∧ c ≠ '.' := by
  simp only [isStray, Bool.and_eq_true, Bool.not_eq_true', Option.isNone_iff_eq_none, bne_iff_ne,
    and_assoc]

/-- No lexeme has a stray character in it. -/
theorem Lexeme.stray_not_mem (hc : isStray c = true) (h : Lexeme kind text rest) : c ∉ text := by
  obtain ⟨-, hsymbol, hident, hpoint⟩ := isStray_iff.mp hc
  obtain ⟨hstart, hdigit⟩ := Bool.or_eq_false_iff.mp hident
  have hdigits : ∀ {ds : List Char}, Digits ds → c ∉ ds := fun hds hmem =>
    Bool.false_ne_true (hdigit.symm.trans (hds c hmem))
  cases h with
  | symbol hkind =>
    intro hmem
    rw [← List.mem_singleton.mp hmem, hsymbol] at hkind
    cases hkind
  | ident hname _ =>
    obtain ⟨d, cs, rfl, hd, hcs⟩ := hname
    intro hmem
    rcases List.mem_cons.mp hmem with rfl | hmem
    · exact Bool.false_ne_true (hstart.symm.trans hd)
    · exact Bool.false_ne_true (hident.symm.trans (hcs c hmem))
  | number hq _ =>
    cases hq with
    | whole _ hds => exact hdigits hds
    | fraction hws _ hfs =>
      intro hmem
      rcases List.mem_append.mp hmem with hmem | hmem
      · exact hdigits hws hmem
      · exact hdigits hfs ((List.mem_cons.mp hmem).resolve_left hpoint)

/-- A text that splits into tokens has no stray character in it. -/
theorem Tokenizes.stray_not_mem (hc : isStray c = true) {position : Nat} {ts : List Token}
    (h : Tokenizes position cs ts) : c ∉ cs := by
  induction h with
  | done => exact List.not_mem_nil
  | blank hblank _ ih =>
    intro hmem
    rcases List.mem_cons.mp hmem with rfl | hmem
    · exact Bool.false_ne_true ((isStray_iff.mp hc).1.symm.trans hblank)
    · exact ih hmem
  | lexeme hlex _ ih =>
    intro hmem
    exact (List.mem_append.mp hmem).elim (hlex.stray_not_mem hc) ih

/-! ## Numbers -/

/-- Where a number may end an identifier may. -/
theorem stops_isIdentChar_of_endsNumber (h : endsNumber rest = true) : Stops isIdentChar rest := by
  cases rest with
  | nil => exact stops_nil
  | cons c cs =>
    simp only [endsNumber, Bool.and_eq_true, Bool.not_eq_true'] at h
    exact stops_cons.mpr h.2

theorem stops_isDigit_of_endsNumber (h : endsNumber rest = true) : Stops isDigit rest := by
  intro c hc
  have hident := stops_isIdentChar_of_endsNumber h c hc
  exact (Bool.or_eq_false_iff.mp hident).2

theorem number_eq_ok_iff : number cs rest = .ok text ↔ text = cs ∧ endsNumber rest = true := by
  cases rest with
  | nil =>
    simp only [number, endsNumber, Except.ok.injEq, and_true]
    exact eq_comm
  | cons c cs =>
    simp only [number]
    split
    case isTrue h =>
      simp only [h, Except.ok.injEq, and_true]
      exact eq_comm
    case isFalse h => simp [h]

/-- A numeral that may end where it does is taken whole. -/
theorem numeral_of_denotes {q : ℚ} (h : Denotes text q) (hrest : endsNumber rest = true) :
    numeral (text ++ rest) = .ok text := by
  have hdigit := stops_isDigit_of_endsNumber hrest
  cases h with
  | whole hne hds =>
    have hno : ∀ after, rest ≠ '.' :: after := by
      rintro after rfl
      exact absurd hrest (by simp [endsNumber])
    simp only [numeral, takeWhile_run hds hdigit, dropWhile_run hds hdigit]
    exact number_eq_ok_iff.mpr ⟨rfl, hrest⟩
  | @fraction ws fs hws hne hfs =>
    have hpoint : Stops isDigit ('.' :: (fs ++ rest)) := stops_cons.mpr (by decide)
    simp only [numeral, List.append_assoc, List.cons_append, takeWhile_run hws hpoint,
      dropWhile_run hws hpoint, takeWhile_run hfs hdigit, dropWhile_run hfs hdigit]
    rw [if_neg (by simpa using hne)]
    exact number_eq_ok_iff.mpr ⟨rfl, hrest⟩

theorem digits_takeWhile (cs : List Char) : Digits (cs.takeWhile isDigit) :=
  List.all_eq_true.mp List.all_takeWhile

/-- What is taken as a number is a numeral that may end where it does. -/
theorem denotes_of_numeral (hstart : isDigit c = true ∨ c = '.')
    (h : numeral (c :: cs) = .ok text) :
    ∃ rest q, c :: cs = text ++ rest ∧ Denotes text q ∧ endsNumber rest = true := by
  have hsplit := (List.takeWhile_append_dropWhile (p := isDigit) (l := c :: cs)).symm
  have hwhole := digits_takeWhile (c :: cs)
  simp only [numeral] at h
  split at h
  case h_1 after hafter =>
    split at h
    case isTrue => exact absurd h (by simp)
    case isFalse hne =>
      obtain ⟨rfl, hend⟩ := number_eq_ok_iff.mp h
      refine ⟨_, _, ?_, .fraction hwhole (by simpa using hne) (digits_takeWhile after), hend⟩
      rw [List.append_assoc, List.cons_append, List.takeWhile_append_dropWhile, ← hafter]
      exact hsplit
  case h_2 hafter =>
    obtain ⟨rfl, hend⟩ := number_eq_ok_iff.mp h
    refine ⟨_, _, hsplit, .whole ?_ hwhole, hend⟩
    -- the text begins with a digit, as it does not with a point
    rcases hstart with hc | rfl
    · simp [hc]
    · exact absurd (by simp [isDigit]) (hafter cs)

/-! ## One lexeme -/

/-- A lexeme is taken off the front of a text that it begins. -/
theorem lexeme_of_isLexeme (h : Lexeme kind text rest) :
    ∃ c cs, text = c :: cs ∧ isBlank c = false ∧ lexeme c (cs ++ rest) = .ok (kind, text) := by
  cases h with
  | @symbol c _ _ hc => exact ⟨c, [], rfl, isBlank_of_symbol hc, by simp [lexeme, hc]⟩
  | ident hident hrest =>
    obtain ⟨c, cs, rfl, hc, hcs⟩ := hident
    refine ⟨c, cs, rfl, isBlank_of_isIdentStart hc, ?_⟩
    simp [lexeme, symbolKind?_eq_none (.inl hc), hc, takeWhile_run hcs hrest]
  | number hq hrest =>
    obtain ⟨c, cs, rfl, hc⟩ := hq.exists_start
    have hblank : isBlank c = false := hc.elim isBlank_of_isDigit (by rintro rfl; decide)
    have htest : (isDigit c || c == '.') = true := by simpa using hc
    refine ⟨c, cs, rfl, hblank, ?_⟩
    simp only [lexeme, symbolKind?_eq_none (.inr hc), isIdentStart_eq_false hc, htest,
      Bool.false_eq_true, if_false, if_true]
    rw [← List.cons_append, numeral_of_denotes hq hrest]
    rfl

/-- What is taken off the front of a text is a lexeme that the text begins with. -/
theorem isLexeme_of_lexeme (h : lexeme c cs = .ok (kind, text)) :
    ∃ rest, c :: cs = text ++ rest ∧ Lexeme kind text rest := by
  unfold lexeme at h
  split at h
  case h_1 kind hc =>
    obtain ⟨rfl, rfl⟩ := Prod.mk.inj (Except.ok.inj h)
    exact ⟨cs, rfl, .symbol hc⟩
  split at h
  case isTrue hc =>
    obtain ⟨rfl, rfl⟩ := Prod.mk.inj (Except.ok.inj h)
    have hmore : ∀ d ∈ cs.takeWhile isIdentChar, isIdentChar d = true :=
      List.all_eq_true.mp List.all_takeWhile
    refine ⟨cs.dropWhile isIdentChar, ?_, .ident ⟨c, _, rfl, hc, hmore⟩ ?_⟩
    · rw [List.cons_append, List.takeWhile_append_dropWhile]
    · exact stops_dropWhile isIdentChar cs
  split at h
  case isTrue hc =>
    obtain ⟨text, hnum, heq⟩ := Outcome.map_eq_ok.mp h
    obtain ⟨rfl, rfl⟩ := Prod.mk.inj heq
    obtain ⟨rest, q, hsplit, hq, hrest⟩ := denotes_of_numeral (by simpa using hc) hnum
    exact ⟨rest, hsplit, .number hq hrest⟩
  case isFalse => exact absurd h (by simp)

/-! ## The scanner -/

theorem scan_nil (position : Nat) : scan position [] = .ok [] := by rw [scan.eq_def]

theorem scan_blank {position : Nat} (hc : isBlank c = true) :
    scan position (c :: cs) = scan (position + 1) cs := by
  rw [scan.eq_def]
  exact if_pos hc

theorem scan_nonblank {position : Nat} (hc : isBlank c = false) :
    scan position (c :: cs) =
      match lexeme c cs with
      | .error r => .error ⟨r.cause, position + r.position⟩
      | .ok (kind, text) =>
        (scan (position + 1 + (text.length - 1)) (cs.drop (text.length - 1))).map
          (⟨kind, String.ofList text, position⟩ :: ·) := by
  rw [scan.eq_def]
  exact if_neg (Bool.eq_false_iff.mp hc)

/-- The scanner takes a lexeme and goes on after it. -/
theorem scan_lexeme {position : Nat} (h : Lexeme kind text rest) :
    scan position (text ++ rest) = (scan (position + text.length) rest).map
      (⟨kind, String.ofList text, position⟩ :: ·) := by
  obtain ⟨c, cs, rfl, hblank, hlex⟩ := lexeme_of_isLexeme h
  rw [List.cons_append, scan_nonblank hblank, hlex]
  simp only [List.length_cons, Nat.add_sub_cancel, List.drop_left]
  rw [Nat.add_assoc, Nat.add_comm 1]

/-- Whatever split a text has is found. -/
theorem scan_of_tokenizes {position : Nat} {ts : List Token} (h : Tokenizes position cs ts) :
    scan position cs = .ok ts := by
  induction h with
  | done => exact scan_nil _
  | blank hc _ ih => rw [scan_blank hc, ih]
  | lexeme hlex _ ih =>
    rw [scan_lexeme hlex, ih]
    rfl

/-- Whatever is found is a split of the text. -/
theorem tokenizes_of_scan {position : Nat} {ts : List Token} (h : scan position cs = .ok ts) :
    Tokenizes position cs ts := by
  induction hn : cs.length using Nat.strong_induction_on generalizing cs position ts with
  | _ n ih =>
  subst hn
  cases cs with
  | nil =>
    rw [scan_nil] at h
    obtain rfl := Except.ok.inj h
    exact .done
  | cons c cs =>
    cases hc : isBlank c with
    | true =>
      rw [scan_blank hc] at h
      exact .blank hc (ih _ (by simp) h rfl)
    | false =>
      have hlex : ∃ kind text, lexeme c cs = .ok (kind, text) := by
        rw [scan_nonblank hc] at h
        split at h
        · exact absurd h (by simp)
        · exact ⟨_, _, ‹_›⟩
      obtain ⟨kind, text, hlex⟩ := hlex
      obtain ⟨rest, hsplit, hlexeme⟩ := isLexeme_of_lexeme hlex
      rw [hsplit, scan_lexeme hlexeme] at h
      obtain ⟨ts, hrest, rfl⟩ := Outcome.map_eq_ok.mp h
      obtain ⟨d, ds, htext, -⟩ := lexeme_of_isLexeme hlexeme
      have hshorter : rest.length < (c :: cs).length := by
        rw [hsplit, htext, List.cons_append, List.length_cons, List.length_append]
        omega
      rw [hsplit]
      exact .lexeme hlexeme (ih _ hshorter hrest rfl)

/-- **The scanner finds exactly the tokens of a text.** -/
theorem scan_eq_ok_iff {position : Nat} {ts : List Token} :
    scan position cs = .ok ts ↔ Tokenizes position cs ts :=
  ⟨tokenizes_of_scan, scan_of_tokenizes⟩

/-- Every token of a text is a lexeme of its kind. -/
theorem Tokenizes.exists_lexeme {position : Nat} {ts : List Token} (h : Tokenizes position cs ts) :
    ∀ t ∈ ts, ∃ rest, Lexeme t.kind t.text.toList rest := by
  induction h with
  | done => exact nofun
  | blank _ _ ih => exact ih
  | lexeme hlex _ ih =>
    intro t ht
    rcases List.mem_cons.mp ht with rfl | ht
    · exact ⟨_, by rwa [String.toList_ofList]⟩
    · exact ih t ht

/-- A text has at most one split. -/
theorem Tokenizes.unique {position : Nat} {ts us : List Token} (ht : Tokenizes position cs ts)
    (hu : Tokenizes position cs us) : ts = us :=
  Except.ok.inj ((scan_of_tokenizes ht).symm.trans (scan_of_tokenizes hu))

end Token

end FuzzyLogic
