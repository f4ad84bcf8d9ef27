import FuzzyLogic.Proofs.Formula.Beginning

/-!
# Proofs/Formula/Misfit — at which token a reader halts

`Halts length level previous used left r` says how the reader of a level comes to refuse: it has got
over `used`, looks at the front of `left` and refuses with `r`.  The rules go down the levels of the
grammar, over what has been read of a chain, to the place where no rule of the grammar goes on.
`Stops` says so of a whole token list.

**The readers refuse exactly as the relation says** (`ofTokens_eq_error_iff`).
-/

namespace FuzzyLogic

namespace Formula

open Token (Spelled)

/-- The reader of a level, after a token, gets over the first tokens, looks at the front of those
left and refuses. -/
inductive Halts (length : Nat) :
    Level → Option Token → List Token → List Token → Refusal → Prop
  | disjunct {previous used left r} : Halts length .conjunction previous used left r →
      Halts length .disjunction previous used left r
  | or {previous ts f op used left r} : Derives .disjunction ts f → op.kind = .or →
      Halts length .conjunction (some op) used left r →
      Halts length .disjunction previous (ts ++ op :: used) left r
  | conjunct {previous used left r} : Halts length .negation previous used left r →
      Halts length .conjunction previous used left r
  | and {previous ts f op used left r} : Derives .conjunction ts f → op.kind = .and →
      Halts length .negation (some op) used left r →
      Halts length .conjunction previous (ts ++ op :: used) left r
  | not {previous op used left r} : op.kind = .not →
      Halts length .negation (some op) used left r →
      Halts length .negation previous (op :: used) left r
  | operand {previous left} : (front length left).kind.startsOperand = false →
      Halts length .negation previous [] left (diagnose previous (front length left))
  | literal {previous t after} : t.kind = .number → (literalValue t.text).isDegree = false →
      Halts length .negation previous [] (t :: after) (refuse (.notADegree t.text) t)
  | empty {previous opening closing after} : opening.kind = .leftParen →
      closing.kind = .rightParen →
      Halts length .negation previous [opening] (closing :: after)
        (refuse .emptyParentheses opening)
  | inside {previous opening used left r} : opening.kind = .leftParen →
      (front length (used ++ left)).kind ≠ .rightParen →
      Halts length .disjunction (some opening) used left r →
      Halts length .negation previous (opening :: used) left r
  | unclosed {previous opening ts f} : opening.kind = .leftParen → Derives .disjunction ts f →
      Halts length .negation previous (opening :: ts) [] (refuse .unclosed opening)
  | unjoined {previous opening ts f t after} : opening.kind = .leftParen →
      Derives .disjunction ts f → t.kind.startsOperand = true →
      Halts length .negation previous (opening :: ts) (t :: after) (refuse (.missingOperator t) t)

/-- The reader of a token list gets over the first tokens, looks at the front of those left, or at
the end of the text, and refuses. -/
inductive Stops (length : Nat) : List Token → List Token → Refusal → Prop
  | empty : Stops length [] [] (refuse .empty (Token.stop length))
  | within {used left r} : used ++ left ≠ [] → Halts length .disjunction none used left r →
      Stops length used left r
  | unmatched {ts f t after} : Derives .disjunction ts f → t.kind = .rightParen →
      Stops length ts (t :: after) (refuse .unmatchedClose t)
  | unjoined {ts f t after} : Derives .disjunction ts f → t.kind.startsOperand = true →
      Stops length ts (t :: after) (refuse (.missingOperator t) t)

variable {length : Nat} {previous : Option Token} {level : Level}
  {ts us used left after : List Token} {t op opening closing : Token} {f : Formula} {r : Refusal}

/-! ## What is left behind a phrase -/

/-- Readers of conjunctions go on until no `&` is at the front. -/
theorem moreConjuncts_leaves {ts : List Token} {left p : Parsed ts}
    (h : moreConjuncts length left = .ok p) : Clear .and p.rest := by
  by_cases hclear : Clear .and left.rest
  · rw [moreConjuncts_clear hclear] at h
    exact Except.ok.inj h ▸ hclear
  · obtain ⟨op, after, hrest, hop⟩ := exists_of_not_clear hclear
    rw [moreConjuncts_and hrest hop] at h
    obtain ⟨right, -, hmore⟩ := Outcome.bind_eq_ok.mp h
    exact moreConjuncts_leaves hmore
termination_by left.rest.length
decreasing_by exact left.join_shorter hrest right

theorem readConjunction_leaves {p : Parsed ts} (h : readConjunction length previous ts = .ok p) :
    Clear .and p.rest := by
  rw [readConjunction_eq] at h
  obtain ⟨left, -, hmore⟩ := Outcome.bind_eq_ok.mp h
  exact moreConjuncts_leaves hmore

/-- Readers of disjunctions go on until no operator is at the front. -/
theorem moreDisjuncts_leaves {ts : List Token} {left p : Parsed ts} (hleft : Clear .and left.rest)
    (h : moreDisjuncts length left = .ok p) : Clear .and p.rest ∧ Clear .or p.rest := by
  by_cases hclear : Clear .or left.rest
  · rw [moreDisjuncts_clear hclear] at h
    exact Except.ok.inj h ▸ ⟨hleft, hclear⟩
  · obtain ⟨op, after, hrest, hop⟩ := exists_of_not_clear hclear
    rw [moreDisjuncts_or hrest hop] at h
    obtain ⟨right, hright, hmore⟩ := Outcome.bind_eq_ok.mp h
    have hand : Clear .and right.rest := readConjunction_leaves hright
    have hjoined : Clear .and (left.join .disjunction hrest right).rest := hand
    exact moreDisjuncts_leaves hjoined hmore
termination_by left.rest.length
decreasing_by exact left.join_shorter hrest right

theorem readDisjunction_leaves {p : Parsed ts} (h : readDisjunction length previous ts = .ok p) :
    Clear .and p.rest ∧ Clear .or p.rest := by
  rw [readDisjunction_eq] at h
  obtain ⟨left, hleft, hmore⟩ := Outcome.bind_eq_ok.mp h
  exact moreDisjuncts_leaves (readConjunction_leaves hleft) hmore

/-- What begins an operand is neither an operator nor a closing parenthesis. -/
theorem ne_of_startsOperand {kind : TokenKind} (ht : t.kind.startsOperand = true)
    (hkind : kind.startsOperand = false) : t.kind ≠ kind := by
  rintro rfl
  rw [ht] at hkind
  exact nomatch hkind

theorem clear_of_startsOperand {kind : TokenKind} (ht : t.kind.startsOperand = true)
    (hkind : kind.startsOperand = false) : Clear kind (t :: after) :=
  clear_cons.mpr (ne_of_startsOperand ht hkind)

/-- What stands behind a disjunction begins an operand, unless it closes a parenthesis. -/
theorem startsOperand_of_leaves (hts : Spelled ts) {p : Parsed ts}
    (h : readDisjunction length previous ts = .ok p) (hrest : p.rest = t :: after)
    (hclosing : t.kind ≠ .rightParen) : t.kind.startsOperand = true := by
  obtain ⟨hand, hor⟩ := readDisjunction_leaves h
  rw [hrest, clear_cons] at hand hor
  obtain ⟨used, hsplit, -⟩ := readDisjunction_sound hts.numerals h
  rw [hrest] at hsplit
  have hstop := hts.ne_stop t (hsplit ▸ List.mem_append_right used List.mem_cons_self)
  generalize t.kind = kind at *
  cases kind <;> first | rfl | contradiction

/-! ## Readers that refuse halt -/

/-- The reader of a level halts somewhere in a token list. -/
def HaltsIn (length : Nat) (level : Level) (previous : Option Token) (ts : List Token)
    (r : Refusal) : Prop :=
  ∃ used left, ts = used ++ left ∧ Halts length level previous used left r

theorem HaltsIn.disjunct (h : HaltsIn length .conjunction previous ts r) :
    HaltsIn length .disjunction previous ts r := by
  obtain ⟨used, left, rfl, h⟩ := h
  exact ⟨used, left, rfl, h.disjunct⟩

theorem HaltsIn.conjunct (h : HaltsIn length .negation previous ts r) :
    HaltsIn length .conjunction previous ts r := by
  obtain ⟨used, left, rfl, h⟩ := h
  exact ⟨used, left, rfl, h.conjunct⟩

namespace Parsed

variable {left : Parsed ts}

/-- Behind an operator the rest of a list is spelled as the list is. -/
theorem IsPhrase.spelled_after (h : left.IsPhrase level) (hts : Spelled ts)
    (hrest : left.rest = op :: after) : Spelled after := by
  obtain ⟨used, hsplit, -⟩ := h
  rw [hrest] at hsplit
  exact fun u hu => hts u (hsplit ▸ List.mem_append_right used (List.mem_cons_of_mem op hu))

theorem IsPhrase.or_haltsIn (hf : left.IsPhrase .disjunction) (hrest : left.rest = op :: after)
    (hop : op.kind = .or) (h : HaltsIn length .conjunction (some op) after r) :
    HaltsIn length .disjunction previous ts r := by
  obtain ⟨before, hts, hf⟩ := hf
  obtain ⟨used, left', rfl, h⟩ := h
  exact ⟨before ++ op :: used, left', by rw [hts, hrest, List.append_assoc, List.cons_append],
    .or hf hop h⟩

theorem IsPhrase.and_haltsIn (hf : left.IsPhrase .conjunction) (hrest : left.rest = op :: after)
    (hop : op.kind = .and) (h : HaltsIn length .negation (some op) after r) :
    HaltsIn length .conjunction previous ts r := by
  obtain ⟨before, hts, hf⟩ := hf
  obtain ⟨used, left', rfl, h⟩ := h
  exact ⟨before ++ op :: used, left', by rw [hts, hrest, List.append_assoc, List.cons_append],
    .and hf hop h⟩

end Parsed

-- one theorem for each reader, on the same measure as the readers
mutual

theorem readDisjunction_halts {length : Nat} {previous : Option Token} {ts : List Token}
    {r : Refusal} (hts : Spelled ts) (h : readDisjunction length previous ts = .error r) :
    HaltsIn length .disjunction previous ts r := by
  rw [readDisjunction_eq] at h
  rcases Outcome.bind_eq_error.mp h with h | ⟨left, hleft, hmore⟩
  · exact (readConjunction_halts hts h).disjunct
  · exact moreDisjuncts_halts hts (readConjunction_sound hts.numerals hleft).disjunct hmore
termination_by (ts.length, 5)
decreasing_by
  · exact Prod.Lex.right _ (by decide)
  · exact Prod.Lex.left _ _ left.rest_shorter

theorem moreDisjuncts_halts {length : Nat} {previous : Option Token} {ts : List Token}
    {left : Parsed ts} {r : Refusal} (hts : Spelled ts) (hleft : left.IsPhrase .disjunction)
    (h : moreDisjuncts length left = .error r) : HaltsIn length .disjunction previous ts r := by
  by_cases hclear : Clear .or left.rest
  · rw [moreDisjuncts_clear hclear] at h
    exact nomatch h
  · obtain ⟨op, after, hrest, hop⟩ := exists_of_not_clear hclear
    have hafter := hleft.spelled_after hts hrest
    rw [moreDisjuncts_or hrest hop] at h
    rcases Outcome.bind_eq_error.mp h with h | ⟨right, hright, hmore⟩
    · exact hleft.or_haltsIn hrest hop (readConjunction_halts hafter h)
    · exact moreDisjuncts_halts hts
        (hleft.or hrest hop (readConjunction_sound hafter.numerals hright)) hmore
termination_by (left.rest.length, 4)
decreasing_by
  · exact Prod.Lex.left _ _ (by simp [hrest])
  · exact Prod.Lex.left _ _ (left.join_shorter hrest right)

theorem readConjunction_halts {length : Nat} {previous : Option Token} {ts : List Token}
    {r : Refusal} (hts : Spelled ts) (h : readConjunction length previous ts = .error r) :
    HaltsIn length .conjunction previous ts r := by
  rw [readConjunction_eq] at h
  rcases Outcome.bind_eq_error.mp h with h | ⟨left, hleft, hmore⟩
  · exact (readNegation_halts hts h).conjunct
  · exact moreConjuncts_halts hts (readNegation_sound left hts.numerals hleft).conjunct hmore
termination_by (ts.length, 3)
decreasing_by
  · exact Prod.Lex.right _ (by decide)
  · exact Prod.Lex.left _ _ left.rest_shorter

theorem moreConjuncts_halts {length : Nat} {previous : Option Token} {ts : List Token}
    {left : Parsed ts} {r : Refusal} (hts : Spelled ts) (hleft : left.IsPhrase .conjunction)
    (h : moreConjuncts length left = .error r) : HaltsIn length .conjunction previous ts r := by
  by_cases hclear : Clear .and left.rest
  · rw [moreConjuncts_clear hclear] at h
    exact nomatch h
  · obtain ⟨op, after, hrest, hop⟩ := exists_of_not_clear hclear
    have hafter := hleft.spelled_after hts hrest
    rw [moreConjuncts_and hrest hop] at h
    rcases Outcome.bind_eq_error.mp h with h | ⟨right, hright, hmore⟩
    · exact hleft.and_haltsIn hrest hop (readNegation_halts hafter h)
    · exact moreConjuncts_halts hts
        (hleft.and hrest hop (readNegation_sound right hafter.numerals hright)) hmore
termination_by (left.rest.length, 2)
decreasing_by
  · exact Prod.Lex.left _ _ (by simp [hrest])
  · exact Prod.Lex.left _ _ (left.join_shorter hrest right)

theorem readNegation_halts {length : Nat} {previous : Option Token} {r : Refusal} :
    ∀ {ts : List Token}, Spelled ts → readNegation length previous ts = .error r →
      HaltsIn length .negation previous ts r
  | [], _, h => by
    rw [readNegation] at h
    obtain rfl := Except.error.inj h
    have hfront : (front length []).kind.startsOperand = false := rfl
    exact ⟨[], [], rfl, .operand hfront⟩
  | t :: after, hts, h => by
    by_cases ht : t.kind = .not
    · rw [readNegation_not ht] at h
      obtain ⟨used, left, rfl, hhalts⟩ := readNegation_halts hts.tail (Outcome.map_eq_error.mp h)
      exact ⟨t :: used, left, rfl, .not ht hhalts⟩
    · rw [readNegation_operand ht] at h
      exact readPrimary_halts hts ht h
termination_by ts => (ts.length, 1)
decreasing_by
  · exact Prod.Lex.left _ _ (Nat.lt_succ_self _)
  · exact Prod.Lex.right _ (by decide)

theorem readPrimary_halts {length : Nat} {previous : Option Token} {t : Token}
    {after : List Token} {r : Refusal} (hts : Spelled (t :: after)) (hnot : t.kind ≠ .not)
    (h : readPrimary length previous t after = .error r) :
    HaltsIn length .negation previous (t :: after) r := by
  rw [readPrimary] at h
  split at h
  case h_1 => exact nomatch h
  case h_2 ht =>
    dsimp only at h
    split at h
    case isTrue => exact nomatch h
    case isFalse hdegree =>
      obtain rfl := Except.error.inj h
      exact ⟨[], t :: after, rfl, .literal ht (Bool.eq_false_iff.mpr hdegree)⟩
  case h_3 ht =>
    split at h
    case isTrue hclosing =>
      obtain rfl := Except.error.inj h
      cases after with
      | nil => exact nomatch hclosing
      | cons closing after => exact ⟨[t], closing :: after, rfl, .empty ht hclosing⟩
    case isFalse hfront =>
    split at h
    case h_1 hinner =>
      obtain rfl := Except.error.inj h
      obtain ⟨used, left, rfl, hhalts⟩ := readDisjunction_halts hts.tail hinner
      exact ⟨t :: used, left, rfl, .inside ht hfront hhalts⟩
    case h_2 inner hinner =>
    obtain ⟨used, hsplit, hf⟩ := readDisjunction_sound hts.tail.numerals hinner
    split at h
    case h_1 hrest =>
      obtain rfl := Except.error.inj h
      rw [hrest, List.append_nil] at hsplit
      exact ⟨t :: after, [], (List.append_nil _).symm, hsplit ▸ .unclosed ht hf⟩
    case h_2 closing rest hrest =>
    split at h
    case isTrue => exact nomatch h
    case isFalse hclosing =>
      have hstarts := startsOperand_of_leaves hts.tail hinner hrest hclosing
      rw [if_pos hstarts] at h
      obtain rfl := Except.error.inj h
      rw [hrest] at hsplit
      exact ⟨t :: used, closing :: rest, congrArg (t :: ·) hsplit, .unjoined ht hf hstarts⟩
  case h_4 hident hnumber hleft =>
    obtain rfl := Except.error.inj h
    have hfront : (front length (t :: after)).kind.startsOperand = false := by
      change t.kind.startsOperand = false
      generalize t.kind = kind at *
      cases kind <;> first | rfl | contradiction
    exact ⟨[], t :: after, rfl, .operand hfront⟩
termination_by (after.length + 1, 0)
decreasing_by exact Prod.Lex.left _ _ (Nat.lt_succ_self _)

end

/-! ## Readers that halt refuse -/

/-- The reader of a level refuses. -/
def Level.Refuses (length : Nat) (previous : Option Token) (ts : List Token) (r : Refusal) :
    Level → Prop
  | .disjunction => readDisjunction length previous ts = .error r
  | .conjunction => readConjunction length previous ts = .error r
  | .negation | .primary => readNegation length previous ts = .error r

/-- Wherever a reader halts it refuses. -/
theorem Halts.refuses (h : Halts length level previous used left r) :
    level.Refuses length previous (used ++ left) r := by
  induction h with
  | disjunct _ ih =>
    dsimp only [Level.Refuses] at ih ⊢
    rw [readDisjunction_eq, ih]
    rfl
  | @or previous ts f op used left r hf hop _ ih =>
    dsimp only [Level.Refuses] at ih ⊢
    rw [List.append_assoc, List.cons_append]
    obtain ⟨p, hp, -, hrest⟩ := getsOver_of_derives hf length previous (op :: (used ++ left))
      (clear_cons.mpr (by simp [hop]))
    rw [hp, moreDisjuncts_or hrest hop, ih]
    rfl
  | conjunct _ ih =>
    dsimp only [Level.Refuses] at ih ⊢
    rw [readConjunction_eq, ih]
    rfl
  | @and previous ts f op used left r hf hop _ ih =>
    dsimp only [Level.Refuses] at ih ⊢
    rw [List.append_assoc, List.cons_append]
    obtain ⟨p, hp, -, hrest⟩ := getsOver_of_derives hf length previous (op :: (used ++ left))
    rw [hp, moreConjuncts_and hrest hop, ih]
    rfl
  | not hop _ ih =>
    dsimp only [Level.Refuses] at ih ⊢
    rw [List.cons_append, readNegation_not hop, ih]
    rfl
  | @operand previous left hfront =>
    dsimp only [Level.Refuses, List.nil_append]
    cases left with
    | nil => rw [readNegation]; rfl
    | cons t after =>
      change t.kind.startsOperand = false at hfront
      have hnot : t.kind ≠ .not := by
        intro h
        exact nomatch h ▸ hfront
      rw [readNegation_operand hnot, readPrimary]
      split
      case h_4 => rfl
      all_goals simp_all [TokenKind.startsOperand]
  | literal ht hdegree =>
    rw [Level.Refuses, List.nil_append, readNegation_operand (by simp [ht]), readPrimary]
    simp [ht, hdegree]
  | empty hopening hclosing =>
    rw [Level.Refuses, List.singleton_append, readNegation_operand (by simp [hopening]),
      readPrimary]
    simp [hopening, hclosing, front]
  | inside hopening hfront _ ih =>
    dsimp only [Level.Refuses] at ih ⊢
    rw [List.cons_append, readNegation_operand (by simp [hopening]), readPrimary]
    simp [hopening, hfront, ih]
  | @unclosed previous opening ts f hopening hf =>
    have hfront : (front length (ts ++ [])).kind ≠ .rightParen := hf.front_ne_rightParen []
    obtain ⟨p, hp, -, hrest⟩ := readDisjunction_of_getsOver (getsOver_of_derives hf length)
      (some opening) clear_nil clear_nil
    obtain ⟨inner, last, left, hlt⟩ := p
    obtain rfl : left = [] := hrest
    dsimp only [Level.Refuses]
    rw [List.cons_append, readNegation_operand (by simp [hopening]), readPrimary]
    simp only [hopening, hfront, if_false, hp]
  | @unjoined previous opening ts f t after hopening hf ht =>
    have hfront : (front length (ts ++ t :: after)).kind ≠ .rightParen := hf.front_ne_rightParen _
    obtain ⟨p, hp, -, hrest⟩ := readDisjunction_of_getsOver (getsOver_of_derives hf length)
      (some opening) (clear_of_startsOperand ht (by decide)) (clear_of_startsOperand ht (by decide))
    obtain ⟨inner, last, left, hlt⟩ := p
    obtain rfl : left = t :: after := hrest
    have hclosing : t.kind ≠ .rightParen := ne_of_startsOperand ht (by decide)
    dsimp only [Level.Refuses]
    rw [List.cons_append, readNegation_operand (by simp [hopening]), readPrimary]
    simp only [hopening, hfront, if_false, hp, hclosing, ht, if_true]

/-! ## Whole token lists -/

/-- A token list that is refused stops its reader. -/
theorem stops_of_ofTokens (hts : Spelled ts) (h : ofTokens length ts = .error r) :
    ∃ used left, ts = used ++ left ∧ Stops length used left r := by
  cases ts with
  | nil =>
    obtain rfl := Except.error.inj h
    exact ⟨[], [], rfl, .empty⟩
  | cons t ts =>
  rcases hwhole : readDisjunction length none (t :: ts) with r' | whole
  · simp only [ofTokens, hwhole] at h
    obtain rfl := Except.error.inj h
    obtain ⟨used, left, hsplit, hhalts⟩ := readDisjunction_halts hts hwhole
    exact ⟨used, left, hsplit, .within (hsplit ▸ List.cons_ne_nil t ts) hhalts⟩
  obtain ⟨used, hsplit, hf⟩ := readDisjunction_sound hts.numerals hwhole
  rcases hrest : whole.rest with _ | ⟨u, rest⟩
  · simp only [ofTokens, hwhole, hrest] at h
    exact absurd h (by simp)
  · simp only [ofTokens, hwhole, hrest] at h
    rw [hrest] at hsplit
    by_cases hclosing : u.kind = .rightParen
    · rw [if_pos hclosing] at h
      obtain rfl := Except.error.inj h
      exact ⟨used, u :: rest, hsplit, .unmatched hf hclosing⟩
    · have hstarts := startsOperand_of_leaves hts hwhole hrest hclosing
      rw [if_neg hclosing, if_pos hstarts] at h
      obtain rfl := Except.error.inj h
      exact ⟨used, u :: rest, hsplit, .unjoined hf hstarts⟩

/-- What a formula is followed by is refused, for one reason or another. -/
theorem ofTokens_of_followed (hf : Derives .disjunction ts f) (hand : Clear .and (t :: after))
    (hor : Clear .or (t :: after)) : ofTokens length (ts ++ t :: after) =
      .error (if t.kind = .rightParen then refuse .unmatchedClose t
        else if t.kind.startsOperand then refuse (.missingOperator t) t
        else refuse (.unexpected t) t) := by
  obtain ⟨p, hp, -, hrest⟩ := readDisjunction_of_getsOver (getsOver_of_derives hf length)
    none hand hor
  obtain ⟨u, us, rfl, -⟩ := hf.exists_start
  have hwhole : readDisjunction length none (u :: (us ++ t :: after)) = .ok p := hp
  rw [List.cons_append]
  simp only [ofTokens, hwhole, hrest]
  split_ifs <;> rfl

/-- A reader that is stopped refuses. -/
theorem Stops.ofTokens (h : Stops length used left r) :
    ofTokens length (used ++ left) = .error r := by
  cases h with
  | empty => rfl
  | within hne hhalts =>
    have hrefuses : readDisjunction length none (used ++ left) = .error r := hhalts.refuses
    obtain ⟨t, ts, hts⟩ := List.exists_cons_of_ne_nil hne
    rw [hts] at hrefuses ⊢
    rw [Formula.ofTokens, hrefuses]
  | unmatched hf ht =>
    rw [ofTokens_of_followed hf (clear_cons.mpr (by simp [ht])) (clear_cons.mpr (by simp [ht])),
      if_pos ht]
  | unjoined hf ht =>
    rw [ofTokens_of_followed hf (clear_of_startsOperand ht (by decide))
      (clear_of_startsOperand ht (by decide)), if_neg (ne_of_startsOperand ht (by decide)),
      if_pos ht]

/-- **A token list is refused exactly where its reader is stopped.** -/
theorem ofTokens_eq_error_iff (hts : Spelled ts) :
    ofTokens length ts = .error r ↔
      ∃ used left, ts = used ++ left ∧ Stops length used left r := by
  constructor
  · exact stops_of_ofTokens hts
  · rintro ⟨used, left, rfl, h⟩
    exact h.ofTokens

end Formula

end FuzzyLogic
