import FuzzyLogic.Formula.Parser
import FuzzyLogic.Proofs.Binary64.Exact
import FuzzyLogic.Proofs.Decimal.Numeral
import FuzzyLogic.Proofs.Outcome

/-!
# Proofs/Formula/Grammar — the reader and the grammar

`Formula.Derives level ts f` says that tokens derive from a level of the grammar, and with which
tree.  A chain of operators is the chain without its last operand, the operator and that operand:
the star of the grammar, read so that it associates to the left.

* `ofTokens_of_derives` — **completeness**: what derives is read, with the tree of its derivation;
* `derives_of_ofTokens` — **soundness**: what is read derives;
* `Derives.unique` — a token list has at most one tree.
-/

namespace FuzzyLogic

namespace Formula

/-! ## The grammar -/

/-- The levels of the grammar, from the loosest operator to the operands. -/
inductive Level
  | disjunction
  | conjunction
  | negation
  | primary
  deriving DecidableEq

/-- The text is a numeral, and the double is the nearest one to what it denotes and at most one. -/
def IsDegreeNumeral (text : String) (value : Binary64) : Prop :=
  ∃ q m, Numeral.Denotes text.toList q ∧ Magnitude.IsNearest m q ∧ m.value ≤ 1 ∧
    value = .signed false m

/-- Tokens that derive from a level, and the tree of the derivation. -/
inductive Derives : Level → List Token → Formula → Prop
  | disjunct {ts f} : Derives .conjunction ts f → Derives .disjunction ts f
  | or {ts us f g op} : Derives .disjunction ts f → op.kind = .or → Derives .conjunction us g →
      Derives .disjunction (ts ++ op :: us) (.disjunction f g)
  | conjunct {ts f} : Derives .negation ts f → Derives .conjunction ts f
  | and {ts us f g op} : Derives .conjunction ts f → op.kind = .and → Derives .negation us g →
      Derives .conjunction (ts ++ op :: us) (.conjunction f g)
  | not {ts f op} : op.kind = .not → Derives .negation ts f →
      Derives .negation (op :: ts) (.negation f)
  | operand {ts f} : Derives .primary ts f → Derives .negation ts f
  | name {t} : t.kind = .ident → Derives .primary [t] (.name t.text t.position)
  | number {t value} : t.kind = .number → IsDegreeNumeral t.text value →
      Derives .primary [t] (.literal value t.position)
  | parentheses {ts f opening closing} : opening.kind = .leftParen → Derives .disjunction ts f →
      closing.kind = .rightParen → Derives .primary (opening :: (ts ++ [closing])) f

variable {length : Nat} {previous : Option Token} {ts us rest after : List Token} {t op : Token}
  {f g : Formula} {level : Level}

/-- A phrase begins with a token that begins an operand. -/
theorem Derives.exists_start (h : Derives level ts f) :
    ∃ t us, ts = t :: us ∧ t.kind.startsOperand = true := by
  induction h with
  | disjunct _ ih | conjunct _ ih | operand _ ih => exact ih
  | or _ _ _ ih _ | and _ _ _ ih _ =>
    obtain ⟨t, us, rfl, ht⟩ := ih
    exact ⟨t, _, rfl, ht⟩
  | not hop _ _ => exact ⟨_, _, rfl, by rw [hop]; rfl⟩
  | name ht | number ht _ => exact ⟨_, _, rfl, by rw [ht]; rfl⟩
  | parentheses ht _ _ _ => exact ⟨_, _, rfl, by rw [ht]; rfl⟩

/-- A phrase does not begin with a closing parenthesis. -/
theorem Derives.front_ne_rightParen (h : Derives level ts f) (rest : List Token) :
    (front length (ts ++ rest)).kind ≠ .rightParen := by
  obtain ⟨t, us, rfl, ht⟩ := h.exists_start
  intro hfront
  rw [show t.kind = .rightParen from hfront] at ht
  exact absurd ht (by decide)

/-! ## Literals -/

/-- Numerals are the texts whose double the reader looks at. -/
theorem literalValue_eq {text : String} {q : ℚ} (h : Numeral.Denotes text.toList q) :
    ∃ m : Magnitude, literalValue text = .signed false m ∧ m.IsNearest q := by
  obtain ⟨d, hd, hm⟩ := Numeral.exists_magnitude h
  exact ⟨d.toMagnitude, by rw [literalValue, hd], hm⟩

theorem isDegree_signed_false {m : Magnitude} :
    (Binary64.signed false m).isDegree = true ↔ m.value ≤ 1 := by
  rw [Binary64.isDegree_iff, Binary64.value_signed_false]
  simp [m.value_nonneg]

/-- A numeral is accepted with the double it is read as. -/
theorem literalValue_of_isDegreeNumeral {text : String} {value : Binary64}
    (h : IsDegreeNumeral text value) : literalValue text = value ∧ value.isDegree = true := by
  obtain ⟨q, m, hq, hm, hle, rfl⟩ := h
  obtain ⟨n, hn, hn'⟩ := literalValue_eq hq
  obtain rfl := hm.unique hn'
  exact ⟨hn, isDegree_signed_false.mpr hle⟩

theorem isDegreeNumeral_of_literalValue {text : String}
    (hq : ∃ q, Numeral.Denotes text.toList q) (h : (literalValue text).isDegree = true) :
    IsDegreeNumeral text (literalValue text) := by
  obtain ⟨q, hq⟩ := hq
  obtain ⟨m, hm, hnear⟩ := literalValue_eq hq
  rw [hm] at h ⊢
  exact ⟨q, m, hq, hnear, isDegree_signed_false.mp h, rfl⟩

/-! ## The readers, step by step -/

/-- No token of a kind is at the front. -/
def Clear (kind : TokenKind) (ts : List Token) : Prop := ∀ t ∈ ts.head?, t.kind ≠ kind

theorem clear_nil {kind : TokenKind} : Clear kind [] := nofun

theorem clear_cons {kind : TokenKind} : Clear kind (t :: ts) ↔ t.kind ≠ kind := by simp [Clear]

theorem exists_of_not_clear {kind : TokenKind} (h : ¬ Clear kind ts) :
    ∃ t us, ts = t :: us ∧ t.kind = kind := by
  cases ts with
  | nil => exact absurd clear_nil h
  | cons t us => exact ⟨t, us, rfl, not_ne_iff.mp fun hne => h (clear_cons.mpr hne)⟩

/-- What has been read, joined to what has been read after an operator. -/
def Parsed.join (combine : Formula → Formula → Formula) (left : Parsed ts)
    (hrest : left.rest = op :: after) (right : Parsed after) : Parsed ts :=
  ⟨combine left.formula right.formula, right.last, right.rest, by
    have h₁ := right.rest_shorter
    have h₂ := left.rest_shorter
    rw [hrest, List.length_cons] at h₂
    omega⟩

theorem Parsed.join_shorter {combine : Formula → Formula → Formula} (left : Parsed ts)
    (hrest : left.rest = op :: after) (right : Parsed after) :
    (left.join combine hrest right).rest.length < left.rest.length := by
  rw [hrest, List.length_cons]
  exact Nat.lt_succ_of_lt right.rest_shorter

theorem moreDisjuncts_clear {left : Parsed ts} (h : Clear .or left.rest) :
    moreDisjuncts length left = .ok left := by
  obtain ⟨f, last, rest, hlt⟩ := left
  cases rest with
  | nil => rw [moreDisjuncts]
  | cons op after =>
    rw [moreDisjuncts]
    exact if_neg (clear_cons.mp h)

theorem moreDisjuncts_or {left : Parsed ts} (hrest : left.rest = op :: after) (hop : op.kind = .or) :
    moreDisjuncts length left = readConjunction length (some op) after >>= fun right =>
      moreDisjuncts length (left.join .disjunction hrest right) := by
  obtain ⟨f, last, rest, hlt⟩ := left
  obtain rfl : rest = op :: after := hrest
  rw [moreDisjuncts]
  simp only [hop, if_true]
  cases readConjunction length (some op) after <;> rfl

theorem moreConjuncts_clear {left : Parsed ts} (h : Clear .and left.rest) :
    moreConjuncts length left = .ok left := by
  obtain ⟨f, last, rest, hlt⟩ := left
  cases rest with
  | nil => rw [moreConjuncts]
  | cons op after =>
    rw [moreConjuncts]
    exact if_neg (clear_cons.mp h)

theorem moreConjuncts_and {left : Parsed ts} (hrest : left.rest = op :: after)
    (hop : op.kind = .and) :
    moreConjuncts length left = readNegation length (some op) after >>= fun right =>
      moreConjuncts length (left.join .conjunction hrest right) := by
  obtain ⟨f, last, rest, hlt⟩ := left
  obtain rfl : rest = op :: after := hrest
  rw [moreConjuncts]
  simp only [hop, if_true]
  cases readNegation length (some op) after <;> rfl

theorem readDisjunction_eq :
    readDisjunction length previous ts =
      readConjunction length previous ts >>= moreDisjuncts length := by
  rw [readDisjunction]
  cases readConjunction length previous ts <;> rfl

theorem readConjunction_eq :
    readConjunction length previous ts = readNegation length previous ts >>= moreConjuncts length := by
  rw [readConjunction]
  cases readNegation length previous ts <;> rfl

theorem readNegation_not (ht : t.kind = .not) :
    readNegation length previous (t :: after) =
      (readNegation length (some t) after).map fun inner =>
        ⟨.negation inner.formula, inner.last, inner.rest, Nat.lt_succ_of_lt inner.rest_shorter⟩ := by
  rw [readNegation, if_pos ht]
  cases readNegation length (some t) after <;> rfl

theorem readNegation_operand (ht : t.kind ≠ .not) :
    readNegation length previous (t :: after) = readPrimary length previous t after := by
  rw [readNegation, if_neg ht]

/-! ## Completeness -/

/-- The reader has got to a formula with some tokens left, and goes on with `more`. -/
def Reaches (more : Parsed ts → Except Refusal (Parsed ts)) (r : Except Refusal (Parsed ts))
    (f : Formula) (rest : List Token) : Prop :=
  ∃ p, r = more p ∧ p.formula = f ∧ p.rest = rest

/-- What goes on with nothing is at its end. -/
theorem Reaches.finish {more : Parsed ts → Except Refusal (Parsed ts)}
    {r : Except Refusal (Parsed ts)} (h : Reaches more r f rest)
    (hmore : ∀ p : Parsed ts, p.rest = rest → more p = .ok p) : Reaches .ok r f rest := by
  obtain ⟨p, hr, hf, hp⟩ := h
  exact ⟨p, hr.trans (hmore p hp), hf, hp⟩

/-- How the reader of a level gets over a phrase, whatever follows.  Negations and primaries are
read to their end.  After a conjunction or a disjunction the reader is in its loop, since what follows
may go on with it; a disjunction that `&` follows would go on within its last operand. -/
def Level.GetsOver (length : Nat) (ts : List Token) (f : Formula) : Level → Prop
  | .disjunction => ∀ previous rest, Clear .and rest →
      Reaches (moreDisjuncts length) (readDisjunction length previous (ts ++ rest)) f rest
  | .conjunction => ∀ previous rest,
      Reaches (moreConjuncts length) (readConjunction length previous (ts ++ rest)) f rest
  | .negation | .primary => ∀ previous rest,
      Reaches .ok (readNegation length previous (ts ++ rest)) f rest

theorem getsOver_disjunct (h : Level.conjunction.GetsOver length ts f) :
    Level.disjunction.GetsOver length ts f := by
  intro previous rest hrest
  obtain ⟨p, hp, hf, hr⟩ := (h previous rest).finish fun p hp =>
    moreConjuncts_clear (by rwa [hp])
  exact ⟨p, by rw [readDisjunction_eq, hp]; rfl, hf, hr⟩

theorem getsOver_or (hf : Level.disjunction.GetsOver length ts f) (hop : op.kind = .or)
    (hg : Level.conjunction.GetsOver length us g) :
    Level.disjunction.GetsOver length (ts ++ op :: us) (.disjunction f g) := by
  intro previous rest hrest
  rw [List.append_assoc, List.cons_append]
  obtain ⟨p, hp, rfl, hpr⟩ := hf previous (op :: (us ++ rest)) (clear_cons.mpr (by simp [hop]))
  obtain ⟨q, hq, rfl, hqr⟩ := (hg (some op) rest).finish fun q hq =>
    moreConjuncts_clear (by rwa [hq])
  exact ⟨p.join .disjunction hpr q, by rw [hp, moreDisjuncts_or hpr hop, hq]; rfl, rfl, hqr⟩

theorem getsOver_conjunct (h : Level.negation.GetsOver length ts f) :
    Level.conjunction.GetsOver length ts f := by
  intro previous rest
  obtain ⟨p, hp, hf, hr⟩ := h previous rest
  exact ⟨p, by rw [readConjunction_eq, hp]; rfl, hf, hr⟩

theorem getsOver_and (hf : Level.conjunction.GetsOver length ts f) (hop : op.kind = .and)
    (hg : Level.negation.GetsOver length us g) :
    Level.conjunction.GetsOver length (ts ++ op :: us) (.conjunction f g) := by
  intro previous rest
  rw [List.append_assoc, List.cons_append]
  obtain ⟨p, hp, rfl, hpr⟩ := hf previous (op :: (us ++ rest))
  obtain ⟨q, hq, rfl, hqr⟩ := hg (some op) rest
  exact ⟨p.join .conjunction hpr q, by rw [hp, moreConjuncts_and hpr hop, hq]; rfl, rfl, hqr⟩

theorem getsOver_not (hop : op.kind = .not) (h : Level.negation.GetsOver length ts f) :
    Level.negation.GetsOver length (op :: ts) (.negation f) := by
  intro previous rest
  rw [List.cons_append]
  obtain ⟨p, hp, rfl, hr⟩ := h (some op) rest
  exact ⟨⟨.negation p.formula, p.last, p.rest, Nat.lt_succ_of_lt p.rest_shorter⟩,
    by rw [readNegation_not hop, hp]; rfl, rfl, hr⟩

theorem getsOver_name (ht : t.kind = .ident) :
    Level.primary.GetsOver length [t] (.name t.text t.position) := by
  intro previous rest
  rw [List.singleton_append, readNegation_operand (by simp [ht]), readPrimary]
  simp only [ht]
  exact ⟨_, rfl, rfl, rfl⟩

theorem getsOver_number {value : Binary64} (ht : t.kind = .number)
    (hvalue : IsDegreeNumeral t.text value) :
    Level.primary.GetsOver length [t] (.literal value t.position) := by
  obtain ⟨rfl, hdegree⟩ := literalValue_of_isDegreeNumeral hvalue
  intro previous rest
  rw [List.singleton_append, readNegation_operand (by simp [ht]), readPrimary]
  simp only [ht, hdegree, if_true]
  exact ⟨_, rfl, rfl, rfl⟩

/-- A disjunction before a token that goes on with nothing is read to its end. -/
theorem readDisjunction_of_getsOver (h : Level.disjunction.GetsOver length ts f)
    (previous : Option Token) (hand : Clear .and rest) (hor : Clear .or rest) :
    Reaches .ok (readDisjunction length previous (ts ++ rest)) f rest :=
  (h previous rest hand).finish fun _ hp => moreDisjuncts_clear (by rwa [hp])

theorem getsOver_parentheses {opening closing : Token} (hopening : opening.kind = .leftParen)
    (hts : Derives .disjunction ts f) (h : Level.disjunction.GetsOver length ts f)
    (hclosing : closing.kind = .rightParen) :
    Level.primary.GetsOver length (opening :: (ts ++ [closing])) f := by
  intro previous rest
  have hfront : (front length (ts ++ closing :: rest)).kind ≠ .rightParen :=
    hts.front_ne_rightParen _
  have hclear : ∀ kind ≠ .rightParen, Clear kind (closing :: rest) := fun kind hkind =>
    clear_cons.mpr (by rw [hclosing]; exact hkind.symm)
  obtain ⟨p, hp, rfl, hpr⟩ := readDisjunction_of_getsOver h (some opening)
    (hclear .and (by decide)) (hclear .or (by decide))
  obtain ⟨inner, last, left, hlt⟩ := p
  obtain rfl : left = closing :: rest := hpr
  rw [List.cons_append, List.append_assoc, List.singleton_append,
    readNegation_operand (by simp [hopening]), readPrimary]
  simp only [hopening, hfront, if_false, hp, hclosing, if_true]
  exact ⟨_, rfl, rfl, rfl⟩

/-- Every phrase is got over. -/
theorem getsOver_of_derives (h : Derives level ts f) (length : Nat) :
    level.GetsOver length ts f := by
  induction h with
  | disjunct _ ih => exact getsOver_disjunct ih
  | or _ hop _ ihf ihg => exact getsOver_or ihf hop ihg
  | conjunct _ ih => exact getsOver_conjunct ih
  | and _ hop _ ihf ihg => exact getsOver_and ihf hop ihg
  | not hop _ ih => exact getsOver_not hop ih
  | operand _ ih => exact ih
  | name ht => exact getsOver_name ht
  | number ht hvalue => exact getsOver_number ht hvalue
  | parentheses hopening hts hclosing ih => exact getsOver_parentheses hopening hts ih hclosing

/-- **Completeness.**  Tokens that derive from the grammar are read, with the tree of the
derivation. -/
theorem ofTokens_of_derives (length : Nat) (h : Derives .disjunction ts f) :
    ofTokens length ts = .ok f := by
  have hall := readDisjunction_of_getsOver (getsOver_of_derives h length) none clear_nil clear_nil
  rw [List.append_nil] at hall
  obtain ⟨p, hp, rfl, hrest⟩ := hall
  obtain ⟨t, us, rfl, -⟩ := h.exists_start
  simp only [ofTokens, hp, hrest]

/-- A token list has at most one tree. -/
theorem Derives.unique (hf : Derives .disjunction ts f) (hg : Derives .disjunction ts g) : f = g :=
  Except.ok.inj ((ofTokens_of_derives 0 hf).symm.trans (ofTokens_of_derives 0 hg))

/-! ## Soundness -/

/-- Every number among the tokens is a numeral, as it is among the tokens of a text. -/
def Numerals (ts : List Token) : Prop :=
  ∀ t ∈ ts, t.kind = .number → ∃ q, Numeral.Denotes t.text.toList q

theorem Numerals.tail (h : Numerals (t :: ts)) : Numerals ts :=
  fun u hu => h u (List.mem_cons_of_mem t hu)

namespace Parsed

/-- What has been read off the front derives from a level. -/
def IsPhrase (level : Level) (p : Parsed ts) : Prop :=
  ∃ used, ts = used ++ p.rest ∧ Derives level used p.formula

variable {left : Parsed ts} {right : Parsed after}

theorem IsPhrase.numerals_rest (h : left.IsPhrase level) (hts : Numerals ts) :
    Numerals left.rest := by
  obtain ⟨used, hsplit, -⟩ := h
  exact fun t ht => hts t (hsplit ▸ List.mem_append_right used ht)

theorem IsPhrase.disjunct (h : left.IsPhrase .conjunction) : left.IsPhrase .disjunction :=
  h.imp fun _ => And.imp_right .disjunct

theorem IsPhrase.conjunct (h : left.IsPhrase .negation) : left.IsPhrase .conjunction :=
  h.imp fun _ => And.imp_right .conjunct

theorem IsPhrase.operand (h : left.IsPhrase .primary) : left.IsPhrase .negation :=
  h.imp fun _ => And.imp_right .operand

/-- What two readers have taken off, with the operator between. -/
theorem join_split (hts : ts = us ++ left.rest) (hrest : left.rest = op :: after)
    (hafter : after = rest ++ right.rest) : ts = (us ++ op :: rest) ++ right.rest := by
  rw [List.append_assoc, List.cons_append, ← hafter, ← hrest]
  exact hts

theorem IsPhrase.or (hf : left.IsPhrase .disjunction) (hrest : left.rest = op :: after)
    (hop : op.kind = .or) (hg : right.IsPhrase .conjunction) :
    (left.join .disjunction hrest right).IsPhrase .disjunction := by
  obtain ⟨used, hts, hf⟩ := hf
  obtain ⟨more, hafter, hg⟩ := hg
  have hsplit := join_split hts hrest hafter
  exact ⟨used ++ op :: more, hsplit, hf.or hop hg⟩

theorem IsPhrase.and (hf : left.IsPhrase .conjunction) (hrest : left.rest = op :: after)
    (hop : op.kind = .and) (hg : right.IsPhrase .negation) :
    (left.join .conjunction hrest right).IsPhrase .conjunction := by
  obtain ⟨used, hts, hf⟩ := hf
  obtain ⟨more, hafter, hg⟩ := hg
  have hsplit := join_split hts hrest hafter
  exact ⟨used ++ op :: more, hsplit, hf.and hop hg⟩

end Parsed

-- one theorem for each reader, on the same measure as the readers
mutual

theorem readDisjunction_sound {length : Nat} {previous : Option Token} {ts : List Token}
    {p : Parsed ts} (hts : Numerals ts) (h : readDisjunction length previous ts = .ok p) :
    p.IsPhrase .disjunction := by
  rw [readDisjunction_eq] at h
  obtain ⟨left, hleft, hmore⟩ := Outcome.bind_eq_ok.mp h
  exact moreDisjuncts_sound hts (readConjunction_sound hts hleft).disjunct hmore
termination_by (ts.length, 5)
decreasing_by
  · exact Prod.Lex.right _ (by decide)
  · exact Prod.Lex.left _ _ left.rest_shorter

theorem moreDisjuncts_sound {length : Nat} {ts : List Token} {left p : Parsed ts}
    (hts : Numerals ts) (hleft : left.IsPhrase .disjunction)
    (h : moreDisjuncts length left = .ok p) : p.IsPhrase .disjunction := by
  by_cases hclear : Clear .or left.rest
  · rw [moreDisjuncts_clear hclear] at h
    exact Except.ok.inj h ▸ hleft
  · obtain ⟨op, after, hrest, hop⟩ := exists_of_not_clear hclear
    rw [moreDisjuncts_or hrest hop] at h
    obtain ⟨right, hright, hmore⟩ := Outcome.bind_eq_ok.mp h
    have hafter : Numerals after := (hrest ▸ hleft.numerals_rest hts).tail
    exact moreDisjuncts_sound hts (hleft.or hrest hop (readConjunction_sound hafter hright)) hmore
termination_by (left.rest.length, 4)
decreasing_by
  · exact Prod.Lex.left _ _ (by simp [hrest])
  · exact Prod.Lex.left _ _ (left.join_shorter hrest right)

theorem readConjunction_sound {length : Nat} {previous : Option Token} {ts : List Token}
    {p : Parsed ts} (hts : Numerals ts) (h : readConjunction length previous ts = .ok p) :
    p.IsPhrase .conjunction := by
  rw [readConjunction_eq] at h
  obtain ⟨left, hleft, hmore⟩ := Outcome.bind_eq_ok.mp h
  exact moreConjuncts_sound hts (readNegation_sound left hts hleft).conjunct hmore
termination_by (ts.length, 3)
decreasing_by
  · exact Prod.Lex.right _ (by decide)
  · exact Prod.Lex.left _ _ left.rest_shorter

theorem moreConjuncts_sound {length : Nat} {ts : List Token} {left p : Parsed ts}
    (hts : Numerals ts) (hleft : left.IsPhrase .conjunction)
    (h : moreConjuncts length left = .ok p) : p.IsPhrase .conjunction := by
  by_cases hclear : Clear .and left.rest
  · rw [moreConjuncts_clear hclear] at h
    exact Except.ok.inj h ▸ hleft
  · obtain ⟨op, after, hrest, hop⟩ := exists_of_not_clear hclear
    rw [moreConjuncts_and hrest hop] at h
    obtain ⟨right, hright, hmore⟩ := Outcome.bind_eq_ok.mp h
    have hafter : Numerals after := (hrest ▸ hleft.numerals_rest hts).tail
    exact moreConjuncts_sound hts (hleft.and hrest hop (readNegation_sound right hafter hright)) hmore
termination_by (left.rest.length, 2)
decreasing_by
  · exact Prod.Lex.left _ _ (by simp [hrest])
  · exact Prod.Lex.left _ _ (left.join_shorter hrest right)

theorem readNegation_sound {length : Nat} {previous : Option Token} : ∀ {ts : List Token}
    (p : Parsed ts), Numerals ts → readNegation length previous ts = .ok p → p.IsPhrase .negation
  | [], _, _, h => by
    rw [readNegation] at h
    exact absurd h (by simp)
  | t :: after, p, hts, h => by
    by_cases ht : t.kind = .not
    · rw [readNegation_not ht] at h
      obtain ⟨inner, hinner, rfl⟩ := Outcome.map_eq_ok.mp h
      obtain ⟨used, hafter, hf⟩ := readNegation_sound inner hts.tail hinner
      exact ⟨t :: used, congrArg (t :: ·) hafter, .not ht hf⟩
    · rw [readNegation_operand ht] at h
      exact (readPrimary_sound hts h).operand
termination_by ts => (ts.length, 1)
decreasing_by
  · exact Prod.Lex.left _ _ (Nat.lt_succ_self _)
  · exact Prod.Lex.right _ (by decide)

theorem readPrimary_sound {length : Nat} {previous : Option Token} {t : Token} {after : List Token}
    {p : Parsed (t :: after)} (hts : Numerals (t :: after))
    (h : readPrimary length previous t after = .ok p) : p.IsPhrase .primary := by
  rw [readPrimary] at h
  split at h
  case h_1 ht =>
    obtain rfl := Except.ok.inj h
    exact ⟨[t], rfl, .name ht⟩
  case h_2 ht =>
    dsimp only at h
    split at h
    case isTrue hdegree =>
      obtain rfl := Except.ok.inj h
      have hnumeral := hts t List.mem_cons_self ht
      exact ⟨[t], rfl, .number ht (isDegreeNumeral_of_literalValue hnumeral hdegree)⟩
    case isFalse => exact absurd h (by simp)
  case h_3 ht =>
    split at h
    case isTrue => exact absurd h (by simp)
    split at h
    case h_1 => exact absurd h (by simp)
    case h_2 inner hinner =>
    split at h
    case h_1 => exact absurd h (by simp)
    case h_2 closing rest hrest =>
    split at h
    case isTrue hclosing =>
      obtain rfl := Except.ok.inj h
      obtain ⟨used, hafter, hf⟩ := readDisjunction_sound hts.tail hinner
      refine ⟨t :: (used ++ [closing]), ?_, .parentheses ht hf hclosing⟩
      simp only [List.cons_append, List.append_assoc, List.nil_append]
      rw [← hrest, ← hafter]
    case isFalse => split at h <;> exact absurd h (by simp)
  case h_4 => exact absurd h (by simp)
termination_by (after.length + 1, 0)
decreasing_by exact Prod.Lex.left _ _ (Nat.lt_succ_self _)

end

/-- **Soundness.**  Tokens that are read derive from the grammar, with the tree that is returned. -/
theorem derives_of_ofTokens (hts : Numerals ts) (h : ofTokens length ts = .ok f) :
    Derives .disjunction ts f := by
  unfold ofTokens at h
  split at h
  case h_1 => exact absurd h (by simp)
  split at h
  case h_1 => exact absurd h (by simp)
  case h_2 whole hwhole =>
  split at h
  case h_1 hrest =>
    obtain rfl := Except.ok.inj h
    obtain ⟨used, hsplit, hf⟩ := readDisjunction_sound hts hwhole
    rw [hrest, List.append_nil] at hsplit
    exact hsplit ▸ hf
  case h_2 =>
    -- whatever is left is refused, for one reason or another
    split at h
    case isTrue => exact absurd h (by simp)
    case isFalse => split at h <;> exact absurd h (by simp)

end Formula

end FuzzyLogic
