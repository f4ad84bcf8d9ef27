import FuzzyLogic.Proofs.Formula.FirstMisfit

/-!
# Proofs/Formula/Tiling — what texts have tokens, and where these stand

A text has tokens exactly if it is a concatenation of blanks and lexemes (`Concatenation`), with
names and numbers taken as long as possible and no number run into.  `IsLexeme` says so in terms of
what stands in the text; that it is what the scanner goes by is `isLexeme_iff`.

The tokens **tile** the text (`Tiles`): they stand in it one behind the other, each where it says,
and only blanks stand between them.  A text that has none begins with such pieces, and is refused where
they end, since no lexeme begins there (`exists_of_scan_error`); what it is refused for stands where
the refusal says (`Blames`).
-/

namespace FuzzyLogic

namespace Token

open Numeral (Digits Denotes)
open Text (Stops isBlank)

variable {c : Char} {cs text rest : List Char} {kind : TokenKind} {t : Token} {ts : List Token}
  {position : Nat}

/-! ## What tokens look like -/

/-- The characters that stand in names. -/
def IsNameChar (c : Char) : Prop := c = '_' ∨ c.isAlphanum = true

/-- What the lexemes of a kind look like. -/
def Fits : TokenKind → List Char → Prop
  | .not, text => text = ['!'] ∨ text = ['~']
  | .and, text => text = ['&']
  | .or, text => text = ['|']
  | .leftParen, text => text = ['(']
  | .rightParen, text => text = [')']
  | .ident, text => ∃ c cs, text = c :: cs ∧ (c = '_' ∨ c.isAlpha = true) ∧ ∀ d ∈ cs, IsNameChar d
  | .number, text => (text ≠ [] ∧ ∀ d ∈ text, d.isDigit = true) ∨
      ∃ ws fs, text = ws ++ '.' :: fs ∧ (∀ d ∈ ws, d.isDigit = true) ∧ fs ≠ [] ∧
        ∀ d ∈ fs, d.isDigit = true
  | .stop, _ => False

/-- A lexeme of a kind, and the text behind it: no longer one begins where it does, and a number is
not run into. -/
structure IsLexeme (kind : TokenKind) (text rest : List Char) : Prop where
  fits : Fits kind text
  longest : ∀ longer, longer <+: text ++ rest → Fits kind longer → longer.length ≤ text.length
  ends : kind = .number → ∀ c ∈ rest.head?, ¬ (c = '.' ∨ IsNameChar c)

theorem isDigit_eq (c : Char) : Decimal.isDigit c = c.isDigit := rfl

theorem isIdentStart_iff : isIdentStart c = true ↔ c = '_' ∨ c.isAlpha = true := by
  unfold isIdentStart Char.isAlpha Char.isUpper Char.isLower
  simp only [Char.le_def, Bool.or_eq_true, Bool.and_eq_true, beq_iff_eq, decide_eq_true_eq,
    ge_iff_le]
  rw [or_assoc, or_comm (a := 'a'.val ≤ c.val ∧ c.val ≤ 'z'.val)]

theorem isIdentChar_iff : isIdentChar c = true ↔ IsNameChar c := by
  rw [isIdentChar, Bool.or_eq_true, isIdentStart_iff, isDigit_eq, IsNameChar, Char.isAlphanum,
    Bool.or_eq_true, or_assoc]

theorem isIdentifier_iff : IsIdentifier text ↔ Fits .ident text := by
  simp only [IsIdentifier, Fits, isIdentStart_iff, isIdentChar_iff]

theorem exists_denotes_iff : (∃ q, Denotes text q) ↔ Fits .number text := by
  constructor
  · rintro ⟨q, h⟩
    cases h with
    | whole hne hds => exact .inl ⟨hne, hds⟩
    | fraction hws hne hfs => exact .inr ⟨_, _, rfl, hws, hne, hfs⟩
  · rintro (⟨hne, hds⟩ | ⟨ws, fs, rfl, hws, hne, hfs⟩)
    · exact ⟨_, .whole hne hds⟩
    · exact ⟨_, .fraction hws hne hfs⟩

theorem symbolKind?_iff (hident : kind ≠ .ident) (hnumber : kind ≠ .number) :
    (∃ c, text = [c] ∧ symbolKind? c = some kind) ↔ Fits kind text := by
  constructor
  · rintro ⟨c, rfl, hc⟩
    rcases symbol_cases hc with rfl | rfl | rfl | rfl | rfl | rfl <;>
      obtain rfl := Option.some.inj hc <;> simp [Fits]
  · intro h
    cases kind with
    | not => rcases h with rfl | rfl <;> exact ⟨_, rfl, rfl⟩
    | and | or | leftParen | rightParen => exact ⟨_, h, rfl⟩
    | ident => exact absurd rfl hident
    | number => exact absurd rfl hnumber
    | stop => exact h.elim

theorem stops_isIdentChar_iff :
    Stops isIdentChar rest ↔ ∀ c ∈ rest.head?, ¬ IsNameChar c := by
  simp only [Stops, ← isIdentChar_iff, Bool.not_eq_true]

theorem endsNumber_iff : endsNumber rest = true ↔ ∀ c ∈ rest.head?, ¬ (c = '.' ∨ IsNameChar c) := by
  cases rest with
  | nil => simp [endsNumber]
  | cons c cs => simp [endsNumber, ← isIdentChar_iff]

/-! ## The longest lexeme -/

/-- What is longer than the front of a text goes on as the text does. -/
theorem exists_next_of_longer {longer : List Char} (h : longer <+: text ++ rest)
    (hlt : text.length < longer.length) : ∃ c ∈ rest.head?, ∃ more, longer = text ++ c :: more := by
  obtain ⟨back, hback⟩ := h
  obtain ⟨more, rfl⟩ : text <+: longer :=
    List.prefix_of_prefix_length_le ⟨rest, rfl⟩ ⟨back, hback⟩ hlt.le
  rw [List.append_assoc, List.append_cancel_left_eq] at hback
  obtain ⟨c, more, rfl⟩ := List.exists_cons_of_ne_nil (l := more) (by
    rintro rfl
    simp at hlt)
  exact ⟨c, by rw [← hback]; rfl, more, rfl⟩

/-- A name ends at what stands in no name. -/
theorem longest_ident (h : Stops isIdentChar rest) {longer : List Char}
    (hfront : longer <+: text ++ rest) (hne : text ≠ []) (hfits : Fits .ident longer) :
    longer.length ≤ text.length := by
  by_contra hlt
  obtain ⟨c, hc, more, rfl⟩ := exists_next_of_longer hfront (not_le.mp hlt)
  obtain ⟨d, ds, hsplit, -, hds⟩ := hfits
  obtain ⟨e, es, rfl⟩ := List.exists_cons_of_ne_nil hne
  obtain ⟨-, rfl⟩ := List.cons_eq_cons.mp hsplit
  exact stops_isIdentChar_iff.mp h c hc (hds c (by simp))

/-- A number ends at what neither goes on with it nor runs into it. -/
theorem longest_number (h : endsNumber rest = true) {longer : List Char}
    (hfront : longer <+: text ++ rest) (hfits : Fits .number longer) :
    longer.length ≤ text.length := by
  by_contra hlt
  obtain ⟨c, hc, more, rfl⟩ := exists_next_of_longer hfront (not_le.mp hlt)
  obtain ⟨q, hq⟩ := exists_denotes_iff.mpr hfits
  refine endsNumber_iff.mp h c hc ?_
  rcases hq.digit_or_point c (by simp) with hdigit | rfl
  · exact .inr (isIdentChar_iff.mp (by rw [isIdentChar, hdigit, Bool.or_true]))
  · exact .inl rfl

/-- Symbols are one character long. -/
theorem Fits.length_eq_one (h : Fits kind text) (hident : kind ≠ .ident)
    (hnumber : kind ≠ .number) : text.length = 1 := by
  obtain ⟨c, rfl, -⟩ := (symbolKind?_iff hident hnumber).mpr h
  rfl

/-- **What the scanner goes by is what stands in the text.** -/
theorem isLexeme_iff : IsLexeme kind text rest ↔ Lexeme kind text rest := by
  constructor
  · rintro ⟨hfits, hlongest, hends⟩
    by_cases hident : kind = .ident
    · subst hident
      refine .ident (isIdentifier_iff.mpr hfits) (stops_isIdentChar_iff.mpr fun c hc hname => ?_)
      -- the name would go on with `c`
      obtain ⟨after, rfl⟩ := List.head?_eq_some_iff.mp hc
      obtain ⟨d, ds, rfl, hd, hds⟩ := hfits
      have hlonger := hlongest (d :: ds ++ [c]) ⟨after, by simp⟩
        ⟨d, ds ++ [c], rfl, hd,
          List.forall_mem_append.mpr ⟨hds, List.forall_mem_singleton.mpr hname⟩⟩
      simp at hlonger
    by_cases hnumber : kind = .number
    · subst hnumber
      obtain ⟨q, hq⟩ := exists_denotes_iff.mpr hfits
      exact .number hq (endsNumber_iff.mpr (hends rfl))
    · obtain ⟨c, rfl, hc⟩ := (symbolKind?_iff hident hnumber).mpr hfits
      exact .symbol hc
  · intro h
    cases h with
    | @symbol c _ _ hc =>
      have hident := fun h => symbolKind?_ne (.inl h) hc
      have hnumber := fun h => symbolKind?_ne (.inr h) hc
      refine ⟨(symbolKind?_iff hident hnumber).mp ⟨c, rfl, hc⟩, fun longer _ hfits => ?_,
        fun h => absurd h hnumber⟩
      rw [hfits.length_eq_one hident hnumber, List.length_singleton]
    | ident hname hstops =>
      have hne : text ≠ [] := by
        obtain ⟨c, cs, rfl, -⟩ := hname
        exact List.cons_ne_nil c cs
      exact ⟨isIdentifier_iff.mp hname, fun longer hfront => longest_ident hstops hfront hne,
        fun h => by cases h⟩
    | number hq hends =>
      exact ⟨exists_denotes_iff.mp ⟨_, hq⟩, fun longer => longest_number hends,
        fun _ => endsNumber_iff.mp hends⟩

/-! ## Concatenations -/

/-- A piece of a text. -/
inductive Piece
  | blank (c : Char)
  | lexeme (kind : TokenKind) (text : List Char)

namespace Piece

/-- The characters of a piece. -/
def chars : Piece → List Char
  | blank c => [c]
  | lexeme _ text => text

/-- The piece is a blank or a lexeme, before some text. -/
def Holds (rest : List Char) : Piece → Prop
  | blank c => isBlank c = true
  | lexeme kind text => IsLexeme kind text rest

/-- The text that pieces make. -/
def join (ps : List Piece) : List Char := ps.flatMap chars

/-- Every piece is a blank or a lexeme before those behind it. -/
def Concatenation : List Piece → Prop
  | [] => True
  | p :: ps => p.Holds (join ps) ∧ Concatenation ps

/-- Every piece is a blank or a lexeme before those behind it and the text behind them all. -/
def Precede (back : List Char) : List Piece → Prop
  | [] => True
  | p :: ps => p.Holds (join ps ++ back) ∧ Precede back ps

end Piece

open Piece (join Concatenation Precede)

/-- **What splits into tokens is a concatenation.** -/
theorem exists_tokenizes_iff :
    (∃ ts, Tokenizes position cs ts) ↔ ∃ ps, join ps = cs ∧ Concatenation ps := by
  constructor
  · rintro ⟨ts, h⟩
    induction h with
    | done => exact ⟨[], rfl, trivial⟩
    | @blank _ c _ _ hc _ ih =>
      obtain ⟨ps, rfl, hps⟩ := ih
      exact ⟨.blank c :: ps, rfl, hc, hps⟩
    | @lexeme _ kind text _ _ hlex _ ih =>
      obtain ⟨ps, rfl, hps⟩ := ih
      exact ⟨.lexeme kind text :: ps, rfl, isLexeme_iff.mpr hlex, hps⟩
  · rintro ⟨ps, rfl, hps⟩
    induction ps generalizing position with
    | nil => exact ⟨[], .done⟩
    | cons p ps ih =>
      obtain ⟨hp, hps⟩ := hps
      cases p with
      | blank c =>
        obtain ⟨ts, hts⟩ : ∃ ts, Tokenizes (position + 1) (join ps) ts := ih hps
        exact ⟨ts, .blank hp hts⟩
      | lexeme kind text =>
        obtain ⟨ts, hts⟩ : ∃ ts, Tokenizes (position + text.length) (join ps) ts := ih hps
        exact ⟨_, .lexeme (isLexeme_iff.mp hp) hts⟩

/-! ## Tiling -/

/-- No lexeme is empty. -/
theorem Lexeme.length_pos (h : Lexeme kind text rest) : 0 < text.length := by
  obtain ⟨c, cs, rfl, -⟩ := lexeme_of_isLexeme h
  exact Nat.succ_pos _

/-- Tokens stand in their text where they say. -/
theorem Tokenizes.exists_stand (h : Tokenizes position cs ts) : ∀ t ∈ ts, ∃ front back,
    cs = front ++ (t.text.toList ++ back) ∧ t.position = position + front.length ∧
      Lexeme t.kind t.text.toList back := by
  induction h with
  | done => exact fun _ h => absurd h List.not_mem_nil
  | @blank _ c _ _ _ _ ih =>
    intro t ht
    obtain ⟨front, back, rfl, hposition, hlex⟩ := ih t ht
    refine ⟨c :: front, back, rfl, ?_, hlex⟩
    rw [hposition, List.length_cons]
    omega
  | @lexeme _ _ text rest _ hlex _ ih =>
    intro t ht
    rcases List.mem_cons.mp ht with rfl | ht
    · exact ⟨[], rest, by rw [String.toList_ofList]; rfl, rfl, by rwa [String.toList_ofList]⟩
    · obtain ⟨front, back, rfl, hposition, hlex⟩ := ih t ht
      refine ⟨text ++ front, back, (List.append_assoc ..).symm, ?_, hlex⟩
      rw [hposition, List.length_append]
      omega

/-- Tokens end before later ones begin. -/
theorem Tokenizes.apart (h : Tokenizes position cs ts) :
    ts.Pairwise fun t u => t.position + t.text.length ≤ u.position := by
  induction h with
  | done => exact .nil
  | blank _ _ ih => exact ih
  | @lexeme position _ text _ _ _ h ih =>
    refine .cons (fun u hu => ?_) ih
    obtain ⟨front, -, -, hposition, -⟩ := h.exists_stand u hu
    show position + (String.ofList text).length ≤ u.position
    rw [hposition, String.length_ofList]
    omega

/-- Only blanks stand outside the tokens. -/
theorem Tokenizes.isBlank_outside (h : Tokenizes position cs ts) : ∀ i c, cs[i]? = some c →
    (∀ t ∈ ts, ¬ (t.position ≤ position + i ∧ position + i < t.position + t.text.length)) →
    isBlank c = true := by
  induction h with
  | done => exact fun i c h => by simp at h
  | @blank position _ _ _ hblank _ ih =>
    intro i c hc houtside
    cases i with
    | zero =>
      obtain rfl := Option.some.inj hc
      exact hblank
    | succ i =>
      rw [Nat.add_comm i, ← Nat.add_assoc] at houtside
      exact ih i c hc houtside
  | @lexeme position _ text rest _ hlex _ ih =>
    intro i c hc houtside
    rw [List.forall_mem_cons] at houtside
    obtain ⟨hhead, houtside⟩ := houtside
    simp only [String.length_ofList] at hhead
    obtain ⟨j, rfl⟩ : ∃ j, i = text.length + j := ⟨i - text.length, by omega⟩
    rw [List.getElem?_append_right (Nat.le_add_right _ _), Nat.add_sub_cancel_left] at hc
    rw [← Nat.add_assoc] at houtside
    exact ih j c hc houtside

/-- The tokens of a text, its end included, tile it. -/
structure Tiles (source : List Char) (ts : List Token) : Prop where
  /-- The places increase. -/
  increasing : ts.Pairwise fun t u => t.position < u.position
  /-- Tokens end before later ones begin. -/
  apart : ts.Pairwise fun t u => t.position + t.text.length ≤ u.position
  /-- Every token is what stands at its place. -/
  slice : ∀ t ∈ ts, (source.drop t.position).take t.text.length = t.text.toList
  /-- Every token but the end is a lexeme of its kind there. -/
  lexeme : ∀ t ∈ ts, t.kind ≠ .stop →
    IsLexeme t.kind t.text.toList (source.drop (t.position + t.text.length))
  /-- Only blanks stand outside the tokens. -/
  outside : ∀ i c, source[i]? = some c →
    (∀ t ∈ ts, ¬ (t.position ≤ i ∧ i < t.position + t.text.length)) → isBlank c = true
  /-- The last token, and no other, is the end. -/
  ending : ∃ us, ts = us ++ [stop source.length] ∧ ∀ t ∈ us, t.kind ≠ .stop

theorem Tokenizes.tiles (h : Tokenizes 0 cs ts) : Tiles cs (ts ++ [stop cs.length]) := by
  have hstand : ∀ t ∈ ts, (cs.drop t.position).take t.text.length = t.text.toList ∧
      Lexeme t.kind t.text.toList (cs.drop (t.position + t.text.length)) ∧
      t.position + t.text.length ≤ cs.length := by
    intro t ht
    obtain ⟨front, back, rfl, hposition, hlex⟩ := h.exists_stand t ht
    rw [hposition, Nat.zero_add, ← String.length_toList]
    refine ⟨by simp, by simpa using hlex, by simp⟩
  have hpos : ∀ t ∈ ts, 0 < t.text.length := fun t ht => by
    rw [← String.length_toList]
    exact (hstand t ht).2.1.length_pos
  have hapart : (ts ++ [stop cs.length]).Pairwise
      fun t u => t.position + t.text.length ≤ u.position := by
    refine List.pairwise_append.mpr ⟨h.apart, List.pairwise_singleton _ _, fun t ht u hu => ?_⟩
    obtain rfl := List.mem_singleton.mp hu
    exact (hstand t ht).2.2
  have hincreasing : ∀ t ∈ ts, ∀ {u : Token}, t.position + t.text.length ≤ u.position →
      t.position < u.position := fun t ht u hle => by
    have := hpos t ht
    omega
  refine ⟨?_, hapart, ?_, ?_, ?_, ts, rfl, fun t ht => (hstand t ht).2.1.ne_stop⟩
  · obtain ⟨hts, -, hlast⟩ := List.pairwise_append.mp hapart
    exact List.pairwise_append.mpr ⟨hts.imp_of_mem fun ht _ => hincreasing _ ht,
      List.pairwise_singleton _ _, fun t ht u hu => hincreasing t ht (hlast t ht u hu)⟩
  · intro t ht
    rcases List.mem_append.mp ht with ht | ht
    · exact (hstand t ht).1
    · obtain rfl := List.mem_singleton.mp ht
      rfl
  · intro t ht hkind
    rcases List.mem_append.mp ht with ht | ht
    · exact isLexeme_iff.mpr (hstand t ht).2.1
    · obtain rfl := List.mem_singleton.mp ht
      exact absurd rfl hkind
  · intro i c hc houtside
    refine h.isBlank_outside i c hc fun t ht => ?_
    rw [Nat.zero_add]
    exact houtside t (List.mem_append_left _ ht)

/-! ## Texts without tokens -/

variable {r : Refusal}

/-- What a refusal for characters is about stands at its place: a character that begins no token, a
number that is run into, or the text behind a point that lacks its digits. -/
inductive Blames (cs : List Char) : Refusal → Prop
  | stray {front c back} : cs = front ++ c :: back → isStray c = true →
      Blames cs ⟨.strayCharacter c, front.length⟩
  | run {front text c back} : cs = front ++ (text ++ c :: back) → Fits .number text →
      c = '.' ∨ IsNameChar c →
      Blames cs ⟨.malformedNumber (String.ofList (text ++ [c])), front.length⟩
  | point {front back} : cs = front ++ '.' :: back → Stops Decimal.isDigit back →
      Blames cs ⟨.missingFraction, front.length + 1⟩

/-- What stands before the text moves the place. -/
theorem Blames.append (h : Blames cs r) (front : List Char) :
    Blames (front ++ cs) ⟨r.cause, front.length + r.position⟩ := by
  cases h with
  | stray hcs hc =>
    rw [hcs, ← List.append_assoc, ← List.length_append]
    exact .stray rfl hc
  | run hcs htext hc =>
    rw [hcs, ← List.append_assoc, ← List.length_append]
    exact .run rfl htext hc
  | point hcs hback =>
    rw [hcs, ← List.append_assoc, ← Nat.add_assoc, ← List.length_append]
    exact .point rfl hback

/-- The place lies within the text, or at its end. -/
theorem Blames.position_le (h : Blames cs r) : r.position ≤ cs.length := by
  cases h with
  | stray hcs _ => simp [hcs]
  | run hcs _ _ => simp [hcs]
  | point hcs _ => simp [hcs]

theorem blames_of_number (htext : Fits .number text) (h : number text rest = .error r) :
    Blames (text ++ rest) r := by
  unfold number at h
  split at h
  · cases h
  · rename_i c more
    split at h
    · cases h
    · rename_i hends
      obtain rfl := Except.error.inj h
      refine .run (List.nil_append _).symm htext ?_
      simpa [endsNumber_iff, or_iff_not_imp_left] using hends

theorem blames_of_numeral (hstart : Decimal.isDigit c = true ∨ c = '.')
    (h : numeral (c :: cs) = .error r) : Blames (c :: cs) r := by
  have hsplit := (List.takeWhile_append_dropWhile (p := Decimal.isDigit) (l := c :: cs)).symm
  have hwhole := digits_takeWhile (c :: cs)
  simp only [numeral] at h
  split at h
  case h_1 after hafter =>
    rw [hafter] at hsplit
    split at h
    case isTrue hnone =>
      obtain rfl := Except.error.inj h
      have hstops := Text.stops_dropWhile Decimal.isDigit after
      have hall := List.takeWhile_append_dropWhile (p := Decimal.isDigit) (l := after)
      rw [List.isEmpty_iff.mp hnone, List.nil_append] at hall
      rw [hall] at hstops
      exact .point hsplit hstops
    case isFalse hne =>
      have hfits : Fits .number _ := exists_denotes_iff.mp
        ⟨_, .fraction hwhole (by simpa using hne) (digits_takeWhile after)⟩
      have hblames := blames_of_number hfits h
      rwa [List.append_assoc, List.cons_append, List.takeWhile_append_dropWhile, ← hsplit]
        at hblames
  case h_2 hafter =>
    have hne : (c :: cs).takeWhile Decimal.isDigit ≠ [] := by
      -- the text begins with a digit, as it does not with a point
      rcases hstart with hc | rfl
      · simp [hc]
      · exact absurd (by simp [Decimal.isDigit]) (hafter cs)
    have hblames := blames_of_number (exists_denotes_iff.mp ⟨_, .whole hne hwhole⟩) h
    rwa [← hsplit] at hblames

theorem blames_of_lexeme (hc : isBlank c = false) (h : lexeme c cs = .error r) :
    Blames (c :: cs) r := by
  unfold lexeme at h
  split at h
  · cases h
  rename_i hsymbol
  split at h
  · cases h
  rename_i hident
  split at h
  · rename_i hstart
    exact blames_of_numeral (by simpa using hstart) (Outcome.map_eq_error.mp h)
  · rename_i hnumber
    obtain rfl := Except.error.inj h
    refine .stray (List.nil_append _).symm (isStray_iff.mpr ⟨hc, hsymbol, ?_, ?_⟩)
    · simp_all [isIdentChar]
    · simp_all

/-- A lexeme stays one when the text is cut off somewhere behind it. -/
theorem Lexeme.of_append {back : List Char} (h : Lexeme kind text (rest ++ back)) :
    Lexeme kind text rest := by
  cases rest with
  | nil => exact h.of_endsNumber rfl
  | cons c cs => exact h.of_head?_eq rfl

/-- Pieces before a text are a concatenation without it. -/
theorem concatenation_of_precede {ps : List Piece} (h : Precede rest ps) : Concatenation ps := by
  induction ps with
  | nil => trivial
  | cons p ps ih =>
    obtain ⟨hp, hps⟩ := h
    refine ⟨?_, ih hps⟩
    cases p with
    | blank c => exact hp
    | lexeme kind text => exact isLexeme_iff.mpr (isLexeme_iff.mp hp).of_append

/-- **A text without tokens**: pieces are at its front, and where they end no lexeme begins, for the
reason that the text is refused for. -/
theorem exists_of_scan_error (h : scan position cs = .error r) :
    ∃ ps c back r', cs = join ps ++ c :: back ∧ Precede (c :: back) ps ∧
      isBlank c = false ∧ lexeme c back = .error r' ∧
      r = ⟨r'.cause, position + (join ps).length + r'.position⟩ := by
  induction hn : cs.length using Nat.strong_induction_on generalizing cs position with
  | _ n ih =>
  subst hn
  cases cs with
  | nil =>
    rw [scan_nil] at h
    cases h
  | cons c cs =>
  cases hc : isBlank c with
  | true =>
    rw [scan_blank hc] at h
    obtain ⟨ps, d, back, r', rfl, hps, hd, hlex, rfl⟩ := ih _ (by simp) h rfl
    refine ⟨.blank c :: ps, d, back, r', rfl, ⟨hc, hps⟩, hd, hlex, ?_⟩
    change _ = Refusal.mk _ (position + (c :: join ps).length + _)
    rw [List.length_cons, Nat.add_comm (join ps).length, Nat.add_assoc position 1]
  | false =>
  cases hlex : lexeme c cs with
  | error r' =>
    rw [scan_nonblank hc, hlex] at h
    exact ⟨[], c, cs, r', rfl, trivial, hc, hlex, (Except.error.inj h).symm⟩
  | ok found =>
    obtain ⟨kind, text⟩ := found
    obtain ⟨rest, hsplit, hlexeme⟩ := isLexeme_of_lexeme hlex
    rw [hsplit] at h ⊢
    rw [scan_lexeme hlexeme] at h
    have hpos := hlexeme.length_pos
    have hshorter : rest.length < (c :: cs).length := by
      rw [hsplit, List.length_append]
      omega
    obtain ⟨ps, d, back, r', rfl, hps, hd, hlex', rfl⟩ :=
      ih _ hshorter (Outcome.map_eq_error.mp h) rfl
    refine ⟨.lexeme kind text :: ps, d, back, r', (List.append_assoc ..).symm,
      ⟨isLexeme_iff.mpr hlexeme, hps⟩, hd, hlex', ?_⟩
    change _ = Refusal.mk _ (position + (text ++ join ps).length + _)
    rw [List.length_append, Nat.add_assoc position text.length]

/-- **A text without tokens is refused at the characters that its refusal is about.** -/
theorem blames_of_scan (h : scan 0 cs = .error r) : Blames cs r := by
  obtain ⟨ps, c, back, r', rfl, -, hc, hlexeme, rfl⟩ := exists_of_scan_error h
  rw [Nat.zero_add]
  exact (blames_of_lexeme hc hlexeme).append (join ps)

/-- Where a lexeme fails no piece begins. -/
theorem not_holds_of_lexeme (hc : isBlank c = false) (h : lexeme c cs = .error r) (p : Piece)
    (hp : c :: cs = p.chars ++ rest) : ¬ p.Holds rest := by
  intro hholds
  cases p with
  | blank d =>
    obtain ⟨rfl, -⟩ := List.cons_eq_cons.mp hp
    exact Bool.false_ne_true (hc.symm.trans hholds)
  | lexeme kind text =>
    obtain ⟨d, ds, rfl, -, hok⟩ := lexeme_of_isLexeme (isLexeme_iff.mp hholds)
    obtain ⟨rfl, rfl⟩ := List.cons_eq_cons.mp hp
    cases h.symm.trans hok

/-! ## Texts -/

variable {source : String}

theorem tokenize_eq_ok_iff : tokenize source = .ok ts ↔
    ∃ us, Tokenizes 0 source.toList us ∧ ts = us ++ [stop source.length] := by
  constructor
  · intro h
    obtain ⟨us, hus, rfl⟩ := Outcome.map_eq_ok.mp h
    exact ⟨us, Formula.lexemes_eq_ok_iff.mp hus, rfl⟩
  · rintro ⟨us, hus, rfl⟩
    exact Formula.tokenize_of_tokenizes hus

/-- **What the tokens of a text are.**

* A text has tokens exactly if it is a concatenation of blanks and lexemes, each as long as possible
  and no number run into.
* The tokens tile the text.
* A text that has none begins with such pieces, up to a place at which no piece begins.  What is
  before that place has tokens; and the text is refused for the reason for which no lexeme begins
  there, within the text and at or behind that place. -/
theorem tokens_of_text (source : String) :
    ((∃ ts, tokenize source = .ok ts) ↔ ∃ ps, join ps = source.toList ∧ Concatenation ps) ∧
    (∀ ts, tokenize source = .ok ts → Tiles source.toList ts) ∧
    ∀ fault, tokenize source = .error fault → ∃ ps c back r,
      source.toList = join ps ++ c :: back ∧ Precede (c :: back) ps ∧
      isBlank c = false ∧ lexeme c back = .error r ∧
      (∀ (p : Piece) rest, c :: back = p.chars ++ rest → ¬ p.Holds rest) ∧
      (∃ us, tokenize (String.ofList (join ps)) = .ok us) ∧
      fault = ⟨source, ⟨r.cause, (join ps).length + r.position⟩⟩ ∧
      fault.position ≤ source.length := by
  refine ⟨?_, fun ts h => ?_, fun fault h => ?_⟩
  · rw [← @exists_tokenizes_iff _ 0]
    constructor
    · rintro ⟨ts, h⟩
      obtain ⟨us, hus, -⟩ := tokenize_eq_ok_iff.mp h
      exact ⟨us, hus⟩
    · rintro ⟨us, hus⟩
      exact ⟨_, tokenize_eq_ok_iff.mpr ⟨us, hus, rfl⟩⟩
  · obtain ⟨us, hus, rfl⟩ := tokenize_eq_ok_iff.mp h
    rw [← String.length_toList]
    exact hus.tiles
  · obtain ⟨r, hr, rfl⟩ := Outcome.mapError_eq_error.mp (Outcome.map_eq_error.mp h)
    have hle := (blames_of_scan hr).position_le
    rw [String.length_toList] at hle
    obtain ⟨ps, c, back, r', hsplit, hps, hc, hlex, rfl⟩ := exists_of_scan_error hr
    obtain ⟨us, hus⟩ :=
      (@exists_tokenizes_iff _ 0).mpr ⟨ps, rfl, concatenation_of_precede hps⟩
    refine ⟨ps, c, back, r', hsplit, hps, hc, hlex, fun p rest => not_holds_of_lexeme hc hlex p,
      ⟨_, tokenize_eq_ok_iff.mpr ⟨us, by rwa [String.toList_ofList], rfl⟩⟩, ?_, hle⟩
    rw [Nat.zero_add]

/-- The text `a |.5` has four tokens, its end included, and `a 1.` is refused behind its point. -/
theorem tokens_of_a_or_half :
    tokenize "a |.5" = .ok [⟨.ident, "a", 0⟩, ⟨.or, "|", 2⟩, ⟨.number, ".5", 3⟩, .stop 5] ∧
    (∃ ps, join ps = "a |.5".toList ∧ Concatenation ps) ∧
    Tiles "a |.5".toList [⟨.ident, "a", 0⟩, ⟨.or, "|", 2⟩, ⟨.number, ".5", 3⟩, .stop 5] ∧
    tokenize "a 1." = .error ⟨"a 1.", ⟨.missingFraction, 4⟩⟩ ∧
    ∃ ps c back r, "a 1.".toList = join ps ++ c :: back ∧ Precede (c :: back) ps ∧
      lexeme c back = .error r ∧ (join ps).length + r.position = 4 := by
  have hfound : tokenize "a |.5" =
      .ok [⟨.ident, "a", 0⟩, ⟨.or, "|", 2⟩, ⟨.number, ".5", 3⟩, .stop 5] := by cbv
  have hrefused : tokenize "a 1." = .error ⟨"a 1.", ⟨.missingFraction, 4⟩⟩ := by cbv
  obtain ⟨hiff, htiles, -⟩ := tokens_of_text "a |.5"
  obtain ⟨-, -, hfault⟩ := tokens_of_text "a 1."
  obtain ⟨ps, c, back, r, hsplit, hps, -, hlex, -, -, heq, -⟩ := hfault _ hrefused
  exact ⟨hfound, hiff.mp ⟨_, hfound⟩, htiles _ hfound, hrefused, ps, c, back, r, hsplit, hps, hlex,
    (congrArg SyntaxFault.position heq).symm⟩

end Token

end FuzzyLogic
