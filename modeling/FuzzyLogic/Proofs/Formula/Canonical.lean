import FuzzyLogic.Proofs.Decimal.ReadBack
import FuzzyLogic.Proofs.Formula.Compilation

/-!
# Proofs/Formula/Canonical — the canonical text is the formula again

The canonical text of a formula has every binary operation in parentheses, so that as a phrase it is
a negation or a primary, whatever the formula.  In it no two lexemes meet that could fuse: names and
numerals end before a blank, a parenthesis or the end of the text.

`Readable cs f` says this of a text, for whatever follows; it holds of the canonical text of every
formula that a text can write (`readable_canonical`), by induction on the formula.  What is read
there is the formula but for the places of its leaves: `unplaced` forgets these.
-/

namespace FuzzyLogic

namespace Formula

/-! ## Formulas without places -/

/-- The formula with all its leaves at the beginning of the text. -/
def unplaced : Formula → Formula
  | name text _ => name text 0
  | literal value _ => literal value 0
  | negation operand => negation operand.unplaced
  | conjunction left right => conjunction left.unplaced right.unplaced
  | disjunction left right => disjunction left.unplaced right.unplaced

variable {f g : Formula}

theorem canonical_unplaced (f : Formula) : f.unplaced.canonical = f.canonical := by
  induction f with
  | name | literal => rfl
  | negation f ih => rw [unplaced, canonical, canonical, ih]
  | conjunction f g ihf ihg | disjunction f g ihf ihg =>
    rw [unplaced, canonical, canonical, ihf, ihg]

theorem nameLeaves_unplaced (f : Formula) : f.unplaced.nameLeaves = f.nameLeaves := by
  induction f with
  | name | literal => rfl
  | negation f ih => exact ih
  | conjunction f g ihf ihg | disjunction f g ihf ihg =>
    rw [unplaced, nameLeaves, nameLeaves, ihf, ihg]

theorem literals_unplaced (f : Formula) : f.unplaced.literals = f.literals := by
  induction f with
  | name | literal => rfl
  | negation f ih => exact ih
  | conjunction f g ihf ihg | disjunction f g ihf ihg =>
    rw [unplaced, literals, literals, ihf, ihg]

/-- What is computed without the places does not depend on them. -/
theorem canonical_eq_of_unplaced_eq (h : f.unplaced = g.unplaced) : f.canonical = g.canonical := by
  rw [← canonical_unplaced f, h, canonical_unplaced]

theorem names_eq_of_unplaced_eq (h : f.unplaced = g.unplaced) : f.names = g.names := by
  rw [names, ← nameLeaves_unplaced, h, nameLeaves_unplaced, names]

theorem hasLiterals_eq_of_unplaced_eq (h : f.unplaced = g.unplaced) :
    f.hasLiterals = g.hasLiterals := by
  rw [hasLiterals, ← literals_unplaced, h, literals_unplaced, hasLiterals]

/-! ## Formulas that a text can write -/

/-- Names are identifiers, and literals are nonnegative doubles up to one. -/
def Legible : Formula → Prop
  | name text _ => Token.IsIdentifier text.toList
  | literal value _ => ∃ m : Magnitude, value = .signed false m ∧ m.value ≤ 1
  | negation operand => operand.Legible
  | conjunction left right | disjunction left right => left.Legible ∧ right.Legible

theorem Derives.legible {level : Level} {ts : List Token} (h : Derives level ts f)
    (hts : ∀ t ∈ ts, ∃ rest, Token.Lexeme t.kind t.text.toList rest) : f.Legible := by
  induction h with
  | disjunct _ ih | conjunct _ ih | operand _ ih => exact ih hts
  | or _ _ _ ihf ihg | and _ _ _ ihf ihg =>
    exact ⟨ihf fun t ht => hts t (List.mem_append_left _ ht),
      ihg fun t ht => hts t (List.mem_append_right _ (List.mem_cons_of_mem _ ht))⟩
  | not _ _ ih => exact ih fun t ht => hts t (List.mem_cons_of_mem _ ht)
  | @name t ht =>
    obtain ⟨rest, hlex⟩ := hts t List.mem_cons_self
    rw [ht] at hlex
    exact hlex.isIdentifier
  | number _ hvalue =>
    obtain ⟨q, m, -, -, hle, rfl⟩ := hvalue
    exact ⟨m, rfl, hle⟩
  | parentheses _ _ _ ih =>
    exact ih fun t ht => hts t (List.mem_cons_of_mem _ (List.mem_append_left _ ht))

/-- What a text writes is legible. -/
theorem Writes.legible {source : String} (h : Writes source f) : f.Legible := by
  obtain ⟨ts, hts, hf⟩ := h
  exact hf.legible hts.exists_lexeme

/-! ## Reading back -/

/-- Before whatever may follow, the text is read as the formula but for places.  The positions and
tokens `us` of what follows are those it has behind this text. -/
def Readable (cs : List Char) (f : Formula) : Prop :=
  ∀ position rest us, Token.endsNumber rest = true →
    Token.Tokenizes (position + cs.length) rest us →
    ∃ ts g, Token.Tokenizes position (cs ++ rest) (ts ++ us) ∧ Derives .negation ts g ∧
      g.unplaced = f.unplaced

variable {cs ds : List Char} {position : Nat}

theorem readable_name {text : String} (h : Token.IsIdentifier text.toList) :
    Readable text.toList (name text position) := by
  intro place rest us hrest hus
  refine ⟨[⟨.ident, text, place⟩], name text place, ?_, .operand (.name rfl), rfl⟩
  have hlex := Token.Lexeme.ident h (Token.stops_isIdentChar_of_endsNumber hrest)
  simpa using Token.Tokenizes.lexeme hlex hus

/-- The text of a literal is read as the same double. -/
theorem readable_literal {m : Magnitude} (h : m.value ≤ 1) :
    Readable (Binary64.signed false m).plainText.toList (literal (.signed false m) position) := by
  intro place rest us hrest hus
  have htop : m ≠ .top := by
    rintro rfl
    rw [Magnitude.value_top] at h
    exact absurd (Nat.cast_le_one.mp h) (by decide +kernel)
  obtain ⟨q, hq, hm⟩ := Binary64.denotes_plainText htop
  refine ⟨[⟨.number, (Binary64.signed false m).plainText, place⟩],
    literal (.signed false m) place, ?_, .operand (.number rfl ⟨q, m, hq, hm, h, rfl⟩), rfl⟩
  simpa using Token.Tokenizes.lexeme (.number hq hrest) hus

/-- The token of a symbol. -/
def symbolToken (kind : TokenKind) (c : Char) (position : Nat) : Token :=
  ⟨kind, String.ofList [c], position⟩

theorem tokenizes_symbol {c : Char} {kind : TokenKind} {ts : List Token}
    (hc : Token.symbolKind? c = some kind) (h : Token.Tokenizes (position + 1) cs ts) :
    Token.Tokenizes position (c :: cs) (symbolToken kind c position :: ts) :=
  Token.Tokenizes.lexeme (.symbol hc) h

theorem tokenizes_of_eq {place : Nat} {ts : List Token} (h : Token.Tokenizes place cs ts)
    (hplace : place = position) : Token.Tokenizes position cs ts := hplace ▸ h

theorem readable_negation (h : Readable cs f) : Readable ('!' :: cs) (negation f) := by
  intro place rest us hrest hus
  obtain ⟨ts, g, hts, hg, hfg⟩ := h (place + 1) rest us hrest
    (tokenizes_of_eq hus (by rw [List.length_cons]; omega))
  exact ⟨symbolToken .not '!' place :: ts, negation g, tokenizes_symbol rfl hts, .not rfl hg,
    congrArg negation hfg⟩

/-- Two texts in parentheses, with an operator between. -/
def operation (symbol : Char) (cs ds : List Char) : List Char :=
  '(' :: (cs ++ ' ' :: symbol :: ' ' :: (ds ++ [')']))

/-- The tokens of an operation: those of its operands, and three symbols. -/
theorem tokenizes_operation {symbol : Char} {kind : TokenKind} {rest : List Char}
    {us : List Token} (hsymbol : Token.symbolKind? symbol = some kind) (hf : Readable cs f)
    (hg : Readable ds g)
    (hus : Token.Tokenizes (position + (operation symbol cs ds).length) rest us) :
    ∃ opening op closing tsl tsr l r,
      Token.Tokenizes position (operation symbol cs ds ++ rest)
        ((opening :: ((tsl ++ op :: tsr) ++ [closing])) ++ us) ∧
      opening.kind = .leftParen ∧ op.kind = kind ∧ closing.kind = .rightParen ∧
      (Derives .negation tsl l ∧ l.unplaced = f.unplaced) ∧
      Derives .negation tsr r ∧ r.unplaced = g.unplaced := by
  -- from the end of the text to its beginning
  have hlength : (operation symbol cs ds).length = cs.length + ds.length + 5 := by
    simp [operation]
    omega
  have hclosing : Token.Tokenizes (position + cs.length + 4 + ds.length) (')' :: rest)
      (symbolToken .rightParen ')' (position + cs.length + 4 + ds.length) :: us) :=
    tokenizes_symbol rfl (tokenizes_of_eq hus (by omega))
  obtain ⟨tsr, r, htsr, hr⟩ := hg (position + cs.length + 4) _ _ rfl hclosing
  have hop := tokenizes_symbol hsymbol (.blank (c := ' ') rfl htsr)
  obtain ⟨tsl, l, htsl, hl⟩ := hf (position + 1) _ _ rfl
    (tokenizes_of_eq (.blank (c := ' ') rfl hop) (by omega))
  have hopening : Token.Tokenizes position ('(' :: _) (symbolToken .leftParen '(' position :: _) :=
    tokenizes_symbol rfl htsl
  refine ⟨symbolToken .leftParen '(' position, symbolToken kind symbol (position + cs.length + 2),
    symbolToken .rightParen ')' (position + cs.length + 4 + ds.length), tsl, tsr, l, r, ?_,
    rfl, rfl, rfl, hl, hr⟩
  simpa [operation] using hopening

theorem readable_conjunction (hf : Readable cs f) (hg : Readable ds g) :
    Readable (operation '&' cs ds) (conjunction f g) := by
  intro place rest us hrest hus
  obtain ⟨opening, op, closing, tsl, tsr, l, r, hts, hopening, hop, hclosing, ⟨hl, hfl⟩, hr, hgr⟩ :=
    tokenizes_operation rfl hf hg hus
  refine ⟨_, conjunction l r, hts, ?_, congrArg₂ conjunction hfl hgr⟩
  exact .operand (.parentheses hopening (.disjunct (.and (.conjunct hl) hop hr)) hclosing)

theorem readable_disjunction (hf : Readable cs f) (hg : Readable ds g) :
    Readable (operation '|' cs ds) (disjunction f g) := by
  intro place rest us hrest hus
  obtain ⟨opening, op, closing, tsl, tsr, l, r, hts, hopening, hop, hclosing, ⟨hl, hfl⟩, hr, hgr⟩ :=
    tokenizes_operation rfl hf hg hus
  refine ⟨_, disjunction l r, hts, ?_, congrArg₂ disjunction hfl hgr⟩
  exact .operand (.parentheses hopening (.or (.disjunct (.conjunct hl)) hop (.conjunct hr)) hclosing)

/-- **The canonical text of a legible formula is read as the formula.** -/
theorem readable_canonical (hf : f.Legible) : Readable f.canonical.toList f := by
  induction f with
  | name text position => exact readable_name hf
  | literal value position =>
    obtain ⟨m, rfl, hm⟩ := hf
    exact readable_literal hm
  | negation f ih =>
    have h := readable_negation (ih hf)
    rwa [show '!' :: f.canonical.toList = (negation f).canonical.toList by simp [canonical]] at h
  | conjunction f g ihf ihg =>
    have h := readable_conjunction (ihf hf.1) (ihg hf.2)
    rwa [show operation '&' f.canonical.toList g.canonical.toList =
      (conjunction f g).canonical.toList by simp [operation, canonical]] at h
  | disjunction f g ihf ihg =>
    have h := readable_disjunction (ihf hf.1) (ihg hf.2)
    rwa [show operation '|' f.canonical.toList g.canonical.toList =
      (disjunction f g).canonical.toList by simp [operation, canonical]] at h

/-- The canonical text of a legible formula writes it, but for places. -/
theorem exists_writes_canonical (hf : f.Legible) :
    ∃ g, Writes f.canonical g ∧ g.unplaced = f.unplaced := by
  obtain ⟨ts, g, hts, hg, hfg⟩ := readable_canonical hf 0 [] [] rfl .done
  rw [List.append_nil, List.append_nil] at hts
  exact ⟨g, ⟨ts, hts, .disjunct (.conjunct hg)⟩, hfg⟩

/-- Legible formulas with one canonical text differ in places at most. -/
theorem unplaced_eq_of_canonical_eq (hf : f.Legible) (hg : g.Legible)
    (h : f.canonical = g.canonical) : f.unplaced = g.unplaced := by
  obtain ⟨f', hf', hff'⟩ := exists_writes_canonical hf
  obtain ⟨g', hg', hgg'⟩ := exists_writes_canonical hg
  rw [← hff', ← hgg', hf'.unique (h ▸ hg')]

end Formula

namespace Compiled

variable {source : String} {c : Compiled}

theorem legible_of_ofSource (h : ofSource source = .ok c) : c.formula.Legible :=
  (ofSource_eq_ok_iff.mp h).2.legible

/-- **Canonical texts compile to what they were made of.**  Of every text that compiles:

* its canonical text compiles too, to the same formula but for places, and so with the same names,
  the same answer to whether it has literals and the same canonical text;
* whatever else compiles has another canonical text, unless it is the same formula but for places. -/
theorem canonical_compiles (h : ofSource source = .ok c) :
    (∃ d, ofSource c.canonical = .ok d ∧ d.formula.unplaced = c.formula.unplaced ∧
      d.names = c.names ∧ d.hasLiterals = c.hasLiterals ∧ d.canonical = c.canonical) ∧
    ∀ other e, ofSource other = .ok e → e.canonical = c.canonical →
      e.formula.unplaced = c.formula.unplaced := by
  have hc := legible_of_ofSource h
  constructor
  · obtain ⟨g, hg, hunplaced⟩ := Formula.exists_writes_canonical hc
    refine ⟨⟨c.canonical, g⟩, ofSource_eq_ok_iff.mpr ⟨rfl, hg⟩, hunplaced, ?_, ?_, ?_⟩
    · exact Formula.names_eq_of_unplaced_eq hunplaced
    · exact Formula.hasLiterals_eq_of_unplaced_eq hunplaced
    · exact Formula.canonical_eq_of_unplaced_eq hunplaced
  · intro other e he hcanonical
    exact Formula.unplaced_eq_of_canonical_eq (legible_of_ofSource he) hc hcanonical

/-- The canonical text of `!a | 0.5` is another text, and compiles to the same formula. -/
theorem canonical_notA_or_half_compiles :
    ∃ c, ofSource "!a | 0.5" = .ok c ∧ c.canonical = "(!a | 0.5)" ∧
      ∃ d, ofSource "(!a | 0.5)" = .ok d ∧ d.formula.unplaced = c.formula.unplaced ∧
        d.names = ["a"] ∧ d.hasLiterals = true ∧ d.canonical = "(!a | 0.5)" := by
  have hcanonical : notAOrHalf.canonical = "(!a | 0.5)" := by decide +kernel
  obtain ⟨⟨d, hd, hunplaced, hnames, hliterals, htext⟩, -⟩ :=
    canonical_compiles ofSource_notAOrHalf
  rw [hcanonical] at hd htext
  exact ⟨_, ofSource_notAOrHalf, hcanonical, d, hd, hunplaced, hnames, hliterals, htext⟩

end Compiled

end FuzzyLogic
