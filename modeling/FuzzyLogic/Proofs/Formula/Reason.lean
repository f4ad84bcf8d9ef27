import FuzzyLogic.Proofs.Formula.Tiling

/-!
# Proofs/Formula/Reason — the reason of a refusal is true

The reader picks the reason of a refusal by the token before the place where it halts and the token
at it.  What the reason says is nevertheless true of the whole text.  `Justified length ts r` spells
it out for every reason, in terms of parentheses that match, operands beside a token and neighbours;
it has no rule for the two reasons that no text is refused for.

What carries the proof is where the reader stands when it asks for an operand (`Due`): at a place
where one is due, not at the end of nothing, and not between parentheses that enclose nothing.
-/

namespace FuzzyLogic

namespace Formula

open Token (Spelled)

/-! ## What a reason says -/

/-- Every parenthesis among the tokens matches one among them. -/
structure Balanced (ts : List Token) : Prop where
  closed_le : ∀ us, us <+: ts → us.countP (·.kind = .rightParen) ≤ us.countP (·.kind = .leftParen)
  closed_eq : ts.countP (·.kind = .rightParen) = ts.countP (·.kind = .leftParen)

/-- An opening parenthesis before the tokens matches a closing one among them. -/
def ClosedIn (after : List Token) : Prop :=
  ∃ inner closing rest, after = inner ++ closing :: rest ∧ closing.kind = .rightParen ∧
    Balanced inner

/-- A closing parenthesis behind the tokens matches an opening one among them. -/
def OpenedIn (before : List Token) : Prop :=
  ∃ rest opening inner, before = rest ++ opening :: inner ∧ opening.kind = .leftParen ∧
    Balanced inner

/-- An operand begins the tokens. -/
def BeginsOperand (ts : List Token) : Prop :=
  ∃ level operand rest f, ts = operand ++ rest ∧ Derives level operand f

/-- An operand ends the tokens. -/
def EndsOperand (ts : List Token) : Prop :=
  ∃ level rest operand f, ts = rest ++ operand ∧ Derives level operand f

/-- What the reason of a refusal says is so, of the tokens of a text of some length.  It is said of
one token, between those before and those behind, and reported where that token stands. -/
inductive Justified (length : Nat) : List Token → Refusal → Prop
  /-- There is no token. -/
  | empty : Justified length [] (refuse .empty (Token.stop length))
  /-- A number denotes no degree. -/
  | notADegree {before t after} : t.kind = .number → (¬ ∃ value, IsDegreeNumeral t.text value) →
      Justified length (before ++ t :: after) (refuse (.notADegree t.text) t)
  /-- A closing parenthesis matches no opening one. -/
  | unmatchedClose {before t after} : t.kind = .rightParen → ¬ OpenedIn before →
      Justified length (before ++ t :: after) (refuse .unmatchedClose t)
  /-- An opening parenthesis matches no closing one, all that open behind it do, and a complete
  formula follows it. -/
  | unclosed {before t after f} : t.kind = .leftParen → ¬ ClosedIn after →
      (∀ more u rest, after = more ++ u :: rest → u.kind = .leftParen → ClosedIn rest) →
      Derives .disjunction after f →
      Justified length (before ++ t :: after) (refuse .unclosed t)
  /-- An opening parenthesis is directly followed by a closing one. -/
  | emptyParentheses {before t closing after} : t.kind = .leftParen → closing.kind = .rightParen →
      Justified length (before ++ t :: closing :: after) (refuse .emptyParentheses t)
  /-- What begins an operand directly follows a complete one. -/
  | missingOperator {before operand f t after} : Derives .primary operand f →
      t.kind.startsOperand = true →
      Justified length (before ++ operand ++ t :: after) (refuse (.missingOperator t) t)
  /-- No operand follows a negation. -/
  | danglingNegation {before t after} : t.kind = .not → ¬ BeginsOperand after →
      Justified length (before ++ t :: after) (refuse (.danglingNegation t) t)
  /-- The first token is a binary operator. -/
  | leadingOperator {t after} : t.kind.isBinary = true →
      Justified length (t :: after) (refuse (.leadingOperator t) t)
  /-- A binary operator directly follows another. -/
  | consecutiveOperators {before first t after} : first.kind.isBinary = true →
      t.kind.isBinary = true →
      Justified length (before ++ first :: t :: after) (refuse (.consecutiveOperators first t) t)
  /-- No operand precedes a binary operator. -/
  | missingLeft {before t after} : t.kind.isBinary = true → ¬ EndsOperand before →
      Justified length (before ++ t :: after) (refuse (.missingLeft t) t)
  /-- No operand follows a binary operator. -/
  | missingRight {before t after} : t.kind.isBinary = true → ¬ BeginsOperand after →
      Justified length (before ++ t :: after) (refuse (.missingRight t) t)
  /-- The last token is a binary operator. -/
  | trailingOperator {before t} : t.kind.isBinary = true →
      Justified length (before ++ [t]) (refuse (.trailingOperator t) t)
  /-- The text ends directly behind an opening parenthesis. -/
  | missingOperand {before opening} : opening.kind = .leftParen →
      Justified length (before ++ [opening])
        (refuse (.missingOperand (Token.stop length)) (Token.stop length))

variable {length : Nat} {previous : Option Token} {level : Level}
  {before after ts us used left : List Token} {t op opening closing : Token} {f : Formula}
  {r : Refusal}

open Stand

/-! ## Parentheses that match -/

theorem countP_opening (hopening : opening.kind = .leftParen) (ts : List Token) :
    (opening :: ts).countP (·.kind = .leftParen) = ts.countP (·.kind = .leftParen) + 1 ∧
      (opening :: ts).countP (·.kind = .rightParen) = ts.countP (·.kind = .rightParen) := by
  simp [hopening]

theorem countP_closing (hclosing : closing.kind = .rightParen) :
    [closing].countP (·.kind = .rightParen) = 1 ∧ [closing].countP (·.kind = .leftParen) = 0 := by
  simp [hclosing]

theorem ClosedIn.append (h : ClosedIn ts) (us : List Token) : ClosedIn (ts ++ us) := by
  obtain ⟨inner, closing, rest, rfl, hclosing, hinner⟩ := h
  exact ⟨inner, closing, rest ++ us, by simp, hclosing, hinner⟩

/-- Unless an opening parenthesis before the tokens is closed among them, no more close than open up
to any of them. -/
theorem closedIn_or_closed_le (ts : List Token) : ClosedIn ts ∨ ∀ us, us <+: ts →
    us.countP (·.kind = .rightParen) ≤ us.countP (·.kind = .leftParen) := by
  induction ts using List.reverseRecOn with
  | nil =>
    refine .inr fun us hus => ?_
    rw [List.prefix_nil.mp hus]
    exact le_rfl
  | append_singleton ts t ih =>
    rcases ih with h | hle
    · exact .inl (h.append [t])
    by_cases hall : (ts ++ [t]).countP (·.kind = .rightParen) ≤
        (ts ++ [t]).countP (·.kind = .leftParen)
    · refine .inr fun us hus => ?_
      rcases List.prefix_concat_iff.mp hus with rfl | hus
      · exact hall
      · exact hle us hus
    -- the last token closes too much, and is the first to do so
    · have hts := hle ts (List.prefix_refl ts)
      rw [List.countP_append, List.countP_append] at hall
      have hclosing : t.kind = .rightParen := by
        by_contra hne
        rw [List.countP_singleton, List.countP_singleton, if_neg (by simpa using hne)] at hall
        omega
      obtain ⟨hone, hnone⟩ := countP_closing hclosing
      exact .inl ⟨ts, t, [], rfl, hclosing, hle, by omega⟩

theorem not_closedIn (h : ∀ us, us <+: after →
    us.countP (·.kind = .rightParen) ≤ us.countP (·.kind = .leftParen)) : ¬ ClosedIn after := by
  rintro ⟨inner, closing, rest, rfl, hclosing, -, hinner⟩
  have hle := h (inner ++ [closing]) ⟨rest, by simp⟩
  obtain ⟨hone, hnone⟩ := countP_closing hclosing
  rw [List.countP_append, List.countP_append] at hle
  omega

/-- A reader that has no parenthesis open has got over none that a closing one behind matches. -/
theorem not_openedIn {s : Stand} (h : (⟨false, 0⟩ : Stand).walk? before = some s)
    (hs : s.opened = 0) : ¬ OpenedIn before := by
  rintro ⟨rest, opening, inner, rfl, hopening, -, hinner⟩
  have hall := opened_walk? h
  have hrest := closed_le h (List.prefix_append rest (opening :: inner))
  obtain ⟨hopens, hcloses⟩ := countP_opening hopening inner
  rw [List.countP_append, List.countP_append] at hall
  dsimp only at hall hrest
  omega

/-- A parenthesis before a phrase is not closed in it. -/
theorem Derives.not_closedIn (h : Derives level ts f) : ¬ ClosedIn ts :=
  Formula.not_closedIn fun us hus => by simpa only [Nat.zero_add] using closed_le (h.walk? 0) hus

/-- A parenthesis that opens in a phrase is closed in it. -/
theorem Derives.closedIn (h : Derives level (ts ++ opening :: us) f)
    (hopening : opening.kind = .leftParen) : ClosedIn us := by
  refine (closedIn_or_closed_le us).resolve_right fun hus => ?_
  have hall := opened_walk? (h.walk? 0)
  have hts := closed_le (h.walk? 0) (List.prefix_append ts (opening :: us))
  have hrest := hus us (List.prefix_refl us)
  obtain ⟨hopens, hcloses⟩ := countP_opening hopening us
  rw [List.countP_append, List.countP_append] at hall
  dsimp only at hall hts
  omega

/-! ## Operands beside a token -/

theorem not_beginsOperand (length : Nat) (h : (front length ts).kind.startsOperand = false) :
    ¬ BeginsOperand ts := by
  rintro ⟨level, operand, rest, f, rfl, hf⟩
  obtain ⟨t, us, rfl, ht⟩ := hf.exists_start
  exact absurd (h.symm.trans ht) Bool.false_ne_true

/-- Where an operand is due none has just ended. -/
theorem not_endsOperand {s : Stand} {d : ℕ} (h : s.walk? ts = some ⟨false, d⟩) :
    ¬ EndsOperand ts := by
  rintro ⟨level, rest, operand, f, rfl, hf⟩
  rw [walk?_append, Option.bind_eq_some_iff] at h
  obtain ⟨⟨complete, e⟩, -, h⟩ := h
  cases complete with
  | false =>
    rw [hf.walk?] at h
    exact absurd h (by simp)
  | true =>
    obtain ⟨t, us, rfl, ht⟩ := hf.exists_start
    rw [walk?_cons, next?_complete ht] at h
    exact nomatch h

/-- A phrase ends with a complete operand. -/
theorem Derives.exists_last (h : Derives level ts f) :
    ∃ rest operand g, ts = rest ++ operand ∧ Derives .primary operand g := by
  induction h with
  | disjunct _ ih | conjunct _ ih => exact ih
  | @or ts _ _ _ op _ _ _ _ ih | @and ts _ _ _ op _ _ _ _ ih =>
    obtain ⟨rest, operand, g, rfl, hg⟩ := ih
    exact ⟨ts ++ op :: rest, operand, g, by simp, hg⟩
  | @not _ _ op _ _ ih =>
    obtain ⟨rest, operand, g, rfl, hg⟩ := ih
    exact ⟨op :: rest, operand, g, rfl, hg⟩
  | operand hf => exact ⟨[], _, _, rfl, hf⟩
  | name ht => exact ⟨[], _, _, rfl, .name ht⟩
  | number ht hvalue => exact ⟨[], _, _, rfl, .number ht hvalue⟩
  | parentheses hopening hf hclosing => exact ⟨[], _, _, rfl, .parentheses hopening hf hclosing⟩

/-- What begins an operand behind a phrase lacks an operator. -/
theorem Derives.missingOperator (h : Derives level ts f) (ht : t.kind.startsOperand = true)
    (length : Nat) (before after : List Token) :
    Justified length (before ++ (ts ++ t :: after)) (refuse (.missingOperator t) t) := by
  obtain ⟨rest, operand, g, rfl, hg⟩ := h.exists_last
  have hmissing : Justified length (before ++ rest ++ operand ++ t :: after)
      (refuse (.missingOperator t) t) := .missingOperator hg ht
  simpa using hmissing

/-! ## Where an operand is due -/

/-- An operand is due between the tokens, other than at the end of nothing and between parentheses
that enclose nothing. -/
structure Due (length : Nat) (before left : List Token) : Prop where
  stand : ∃ d, (⟨false, 0⟩ : Stand).walk? before = some ⟨false, d⟩
  nonempty : before ++ left ≠ []
  unless_closed : ∀ p, before.getLast? = some p → p.kind = .leftParen →
    (front length left).kind ≠ .rightParen

/-- An operand is due behind operators and opening parentheses that stand in their places. -/
theorem Due.behind (h : Due length before left) (ts more : List Token)
    (hwalk : ∀ d, ∃ d', (⟨false, d⟩ : Stand).walk? (ts ++ [op]) = some ⟨false, d'⟩)
    (hclosed : op.kind = .leftParen → (front length more).kind ≠ .rightParen) :
    Due length (before ++ ts ++ [op]) more := by
  obtain ⟨d, hd⟩ := h.stand
  obtain ⟨d', hd'⟩ := hwalk d
  refine ⟨⟨d', ?_⟩, by simp, fun p hp hkind => hclosed ?_⟩
  · rw [List.append_assoc, walk?_append, hd, Option.bind_some, hd']
  · rw [List.getLast?_concat] at hp
    exact Option.some.inj hp ▸ hkind

/-- An operand is due at the front of what has a token. -/
theorem due_nil (h : left ≠ []) : Due length [] left :=
  ⟨⟨0, rfl⟩, h, fun _ hp => nomatch hp⟩

/-- Only an operator or an opening parenthesis stands before where an operand is due. -/
theorem Due.kind_of_getLast? (h : Due length (before ++ [op]) left) :
    op.kind = .not ∨ op.kind.isBinary = true ∨ op.kind = .leftParen := by
  obtain ⟨d, hd⟩ := h.stand
  rw [walk?_append, Option.bind_eq_some_iff] at hd
  obtain ⟨⟨complete, opened⟩, -, hd⟩ := hd
  rw [walk?_cons, Option.bind_eq_some_iff] at hd
  obtain ⟨s, hs, hd⟩ := hd
  obtain rfl : s = ⟨false, d⟩ := Option.some.inj hd
  unfold next? at hs
  generalize op.kind = kind at *
  rcases opened with _ | opened <;> cases kind <;> cases complete <;>
    simp [TokenKind.isBinary] at hs ⊢

/-- What stands where an operand is due and begins none joins operands or closes a parenthesis. -/
theorem kind_of_not_startsOperand (ht : t.kind.startsOperand = false) (hstop : t.kind ≠ .stop) :
    t.kind.isBinary = true ∨ t.kind = .rightParen := by
  generalize t.kind = kind at *
  cases kind <;> simp_all [TokenKind.startsOperand, TokenKind.isBinary]

theorem ne_of_isBinary {kind : TokenKind} (ht : t.kind.isBinary = true)
    (hkind : kind.isBinary = false) : t.kind ≠ kind := by
  rintro rfl
  exact absurd (ht.symm.trans hkind) (by decide)

/-- At the end of a text the operand before it is told to be missing. -/
theorem Due.justified_at_end (h : Due length before []) :
    Justified length before (diagnose before.getLast? (Token.stop length)) := by
  have hbegins : ¬ BeginsOperand [] := not_beginsOperand length rfl
  have hstop : (Token.stop length).kind = .stop := rfl
  have hbinary : TokenKind.stop.isBinary = false := rfl
  rcases before.eq_nil_or_concat' with rfl | ⟨init, p, rfl⟩
  · exact absurd rfl h.nonempty
  rw [List.getLast?_concat]
  rcases h.kind_of_getLast? with hp | hp | hp
  · simp only [diagnose, hp, if_true]
    exact .danglingNegation hp hbegins
  · have hnot : p.kind ≠ .not := ne_of_isBinary hp rfl
    simp only [diagnose, hp, hnot, hstop, hbinary, if_true, if_false, Bool.false_eq_true]
    exact .trailingOperator hp
  · simp only [diagnose, hp, hstop, TokenKind.isBinary, if_false, reduceCtorEq, Bool.false_eq_true]
    exact .missingOperand hp

/-- At a token that begins no operand the operand before it is told to be missing, or the token to
be out of place. -/
theorem Due.justified_at (h : Due length before (t :: after)) (hstop : t.kind ≠ .stop)
    (ht : t.kind.startsOperand = false) :
    Justified length (before ++ t :: after) (diagnose before.getLast? t) := by
  have hbegins : ¬ BeginsOperand (t :: after) := not_beginsOperand length ht
  have hclosed := h.unless_closed
  obtain ⟨d, hd⟩ := h.stand
  rcases before.eq_nil_or_concat' with rfl | ⟨init, p, rfl⟩
  · rcases kind_of_not_startsOperand ht hstop with ht | ht
    · simp only [diagnose, List.getLast?_nil, ht, if_true]
      exact .leadingOperator ht
    · simp only [diagnose, List.getLast?_nil, ht, TokenKind.isBinary, Bool.false_eq_true, if_false,
        if_true]
      exact .unmatchedClose ht (not_openedIn rfl rfl)
  have hopen : TokenKind.leftParen.isBinary = false := rfl
  have hclose : TokenKind.rightParen.isBinary = false := rfl
  have hsplit : init ++ [p] ++ t :: after = init ++ p :: t :: after := by simp
  rw [List.getLast?_concat]
  rcases h.kind_of_getLast? with hp | hp | hp
  · rw [hsplit]
    simp only [diagnose, hp, if_true]
    exact .danglingNegation hp hbegins
  · have hnot : p.kind ≠ .not := ne_of_isBinary hp rfl
    rw [hsplit]
    rcases kind_of_not_startsOperand ht hstop with ht | ht
    · simp only [diagnose, hnot, hp, ht, if_true, if_false]
      exact .consecutiveOperators hp ht
    · simp only [diagnose, hnot, hp, ht, hclose, reduceCtorEq, Bool.false_eq_true, if_true,
        if_false]
      exact .missingRight hp hbegins
  · rcases kind_of_not_startsOperand ht hstop with ht | ht
    · simp only [diagnose, hp, ht, hopen, reduceCtorEq, Bool.false_eq_true, if_true, if_false]
      exact .missingLeft ht (not_endsOperand hd)
    · exact absurd ht (hclosed p (List.getLast?_concat ..) hp)

/-! ## Every reason is true -/

/-- **Where a reader halts it tells the truth**, about the tokens before an operand that is due as
well as about those behind. -/
theorem Halts.justified (h : Halts length level previous used left r)
    (hleft : ∀ t ∈ left, t.kind ≠ .stop) (hbefore : before.getLast? = previous)
    (hdue : Due length before (used ++ left)) : Justified length (before ++ (used ++ left)) r := by
  induction h generalizing before with
  | disjunct _ ih | conjunct _ ih => exact ih hleft hbefore hdue
  | @or _ ts _ op used left _ hf hop _ ih | @and _ ts _ op used left _ hf hop _ ih =>
    have hnext := ih hleft List.getLast?_concat <| hdue.behind ts (used ++ left)
      (fun d => ⟨d, by rw [walk?_append, hf.walk?]; simp [next?, hop]⟩) (by simp [hop])
    simpa using hnext
  | @not _ op used left _ hop _ ih =>
    have hnext := ih hleft List.getLast?_concat <| hdue.behind [] (used ++ left)
      (fun d => ⟨d, by simp [next?, hop]⟩) (by simp [hop])
    simpa using hnext
  | @operand _ left hfront =>
    subst hbefore
    cases left with
    | nil =>
      rw [List.append_nil, List.append_nil]
      exact Due.justified_at_end hdue
    | cons t after => exact hdue.justified_at (hleft t List.mem_cons_self) hfront
  | literal ht hdegree =>
    refine .notADegree ht ?_
    rintro ⟨value, hvalue⟩
    obtain ⟨rfl, hvalue⟩ := literalValue_of_isDegreeNumeral hvalue
    exact absurd (hdegree.symm.trans hvalue) Bool.false_ne_true
  | empty hopening hclosing => exact .emptyParentheses hopening hclosing
  | @inside _ opening used left _ hopening hfront _ ih =>
    have hnext := ih hleft List.getLast?_concat <| hdue.behind [] (used ++ left)
      (fun d => ⟨d + 1, by simp [next?, hopening]⟩) fun _ => hfront
    simpa using hnext
  | @unclosed _ opening ts f hopening hf =>
    rw [List.append_nil]
    refine .unclosed hopening hf.not_closedIn ?_ hf
    rintro more u rest rfl hu
    exact hf.closedIn hu
  | @unjoined _ opening ts f t after _ hf ht =>
    have hmissing := hf.missingOperator ht length (before ++ [opening]) after
    simpa using hmissing

theorem Stops.justified (h : Stops length used left r) (hleft : ∀ t ∈ left, t.kind ≠ .stop) :
    Justified length (used ++ left) r := by
  cases h with
  | empty => exact .empty
  | within hne hhalts => exact hhalts.justified hleft rfl (due_nil hne)
  | unmatched hf ht => exact .unmatchedClose ht (not_openedIn (hf.walk? 0) rfl)
  | unjoined hf ht => exact hf.missingOperator ht _ [] _

/-! ## Texts -/

/-- The refusal blames characters, of a text without tokens. -/
def Lexical (r : Refusal) : Prop :=
  (∃ c, r.cause = .strayCharacter c) ∨ r.cause = .missingFraction ∨
    ∃ text, r.cause = .malformedNumber text

theorem lexical_of_lexemes {source : String} {fault : SyntaxFault}
    (h : lexemes source = .error fault) : Lexical fault.refusal := by
  obtain ⟨r, hr, rfl⟩ := Outcome.mapError_eq_error.mp h
  dsimp only
  cases Token.blames_of_scan hr with
  | stray _ _ => exact .inl ⟨_, rfl⟩
  | run _ _ _ => exact .inr (.inr ⟨_, rfl⟩)
  | point _ _ => exact .inr (.inl rfl)

/-- The tokens of a text that is refused justify it. -/
theorem justified_of_parse {source : String} {fault : SyntaxFault}
    (hts : lexemes source = .ok ts) (h : parse source = .error fault) :
    Justified source.length ts fault.refusal := by
  obtain ⟨used, left, rfl, hstops⟩ := stops_of_parse hts h
  have hspelled : Spelled (used ++ left) := (lexemes_eq_ok_iff.mp hts).exists_lexeme
  exact hstops.justified fun t ht => hspelled.ne_stop t (List.mem_append_right used ht)

/-- **The reason of a refusal is true.**  If a text that is refused has tokens, what the reason says
of them is so, at the place where it is reported.  No text, with tokens or without, is refused for a
token that is merely unexpected behind a complete formula, or found in place of a closing
parenthesis: whatever can stand there is refused for a reason of its own. -/
theorem reason_is_true {source : String} {fault : SyntaxFault} (h : parse source = .error fault) :
    (∀ ts, lexemes source = .ok ts → Justified source.length ts fault.refusal) ∧
      ∀ t, fault.refusal.cause ≠ .unexpected t ∧ fault.refusal.cause ≠ .expectedClose t := by
  have hjustified : ∀ ts, lexemes source = .ok ts → Justified source.length ts fault.refusal :=
    fun ts hts => justified_of_parse hts h
  refine ⟨hjustified, fun t => ?_⟩
  cases hts : lexemes source with
  | ok ts =>
    have hreason := hjustified ts hts
    generalize fault.refusal = r at hreason ⊢
    cases hreason <;> constructor <;> intro hcause <;> cases hcause
  | error fault' =>
    rw [parse, hts] at h
    obtain rfl := Except.error.inj h
    rcases lexical_of_lexemes hts with ⟨c, hc⟩ | hc | ⟨text, hc⟩ <;> rw [hc] <;>
      constructor <;> intro hcause <;> cases hcause

/-- In the text `((a | b)` the first parenthesis is the one reported as unclosed: it is the last
that matches none, and a complete formula follows it. -/
theorem unclosed_before_closed :
    ∃ ts fault, lexemes "((a | b)" = .ok ts ∧ parse "((a | b)" = .error fault ∧
      fault.refusal = ⟨.unclosed, 0⟩ ∧ Justified 8 ts fault.refusal := by
  have hts : lexemes "((a | b)" = .ok [⟨.leftParen, "(", 0⟩, ⟨.leftParen, "(", 1⟩,
      ⟨.ident, "a", 2⟩, ⟨.or, "|", 4⟩, ⟨.ident, "b", 6⟩, ⟨.rightParen, ")", 7⟩] := by cbv
  have hparse : parse "((a | b)" = .error ⟨"((a | b)", ⟨.unclosed, 0⟩⟩ := by cbv
  exact ⟨_, _, hts, hparse, rfl, (reason_is_true hparse).1 _ hts⟩

end Formula

end FuzzyLogic
