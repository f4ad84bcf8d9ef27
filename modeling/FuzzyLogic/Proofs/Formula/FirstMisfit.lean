import FuzzyLogic.Proofs.Formula.Misfit

/-!
# Proofs/Formula/FirstMisfit — a refusal comes at the first misfit

Where a reader halts (`Halts`), what it has got over can still be completed
(`Halts.exists_completion`), and what it looks at cannot follow (`Halts.walk?`).  So a text is
refused at the first token that fits no formula beginning as the text does.  The refusal rests on
the tokens up to that one (`Stops.of_same_front`), and it is **reported there, at the token before
it or at a parenthesis that is open there** (`Halts.reportedNear`).
-/

namespace FuzzyLogic

namespace Token

variable {ts us : List Token}

/-- A name, to stand for a missing operand. -/
def filler : Token := ⟨.ident, "a", 0⟩

/-- A closing parenthesis, to close an open one. -/
def closer : Token := ⟨.rightParen, ")", 0⟩

theorem spelled_filler : Spelled [filler] := by
  intro t ht
  obtain rfl := List.mem_singleton.mp ht
  exact ⟨[], .ident ⟨'a', [], rfl, by decide, nofun⟩ Text.stops_nil⟩

theorem spelled_closer : Spelled [closer] := by
  intro t ht
  obtain rfl := List.mem_singleton.mp ht
  exact ⟨[], .symbol (by decide)⟩

theorem Spelled.append (hts : Spelled ts) (hus : Spelled us) : Spelled (ts ++ us) := by
  intro t ht
  rcases List.mem_append.mp ht with h | h
  · exact hts t h
  · exact hus t h

end Token

namespace Formula

open Token (Spelled written filler closer)

variable {length : Nat} {previous : Option Token} {level : Level}
  {ts us used left after : List Token} {t opening : Token} {f : Formula} {r : Refusal}

/-! ## What has been read can be completed -/

/-- **Where a reader halts, what it has got over begins a phrase.** -/
theorem Halts.exists_completion (h : Halts length level previous used left r) :
    ∃ us f, Spelled us ∧ Derives level (used ++ us) f := by
  induction h with
  | disjunct _ ih =>
    obtain ⟨us, f, hus, hf⟩ := ih
    exact ⟨us, f, hus, .disjunct hf⟩
  | @or _ _ f _ _ _ _ hf hop _ ih =>
    obtain ⟨us, g, hus, hg⟩ := ih
    refine ⟨us, .disjunction f g, hus, ?_⟩
    rw [List.append_assoc, List.cons_append]
    exact .or hf hop hg
  | conjunct _ ih =>
    obtain ⟨us, f, hus, hf⟩ := ih
    exact ⟨us, f, hus, .conjunct hf⟩
  | @and _ _ f _ _ _ _ hf hop _ ih =>
    obtain ⟨us, g, hus, hg⟩ := ih
    refine ⟨us, .conjunction f g, hus, ?_⟩
    rw [List.append_assoc, List.cons_append]
    exact .and hf hop hg
  | not hop _ ih =>
    obtain ⟨us, f, hus, hf⟩ := ih
    exact ⟨us, _, hus, .not hop hf⟩
  | operand _ | literal _ _ =>
    exact ⟨[filler], _, Token.spelled_filler, .operand (.name rfl)⟩
  | empty hopening _ =>
    exact ⟨[filler] ++ [closer], _, Token.spelled_filler.append Token.spelled_closer,
      .operand (.parentheses hopening (.disjunct (.conjunct (.operand (.name rfl)))) rfl)⟩
  | inside hopening _ _ ih =>
    obtain ⟨us, f, hus, hf⟩ := ih
    refine ⟨us ++ [closer], f, hus.append Token.spelled_closer, ?_⟩
    rw [List.cons_append, ← List.append_assoc]
    exact .operand (.parentheses hopening hf rfl)
  | unclosed hopening hf | unjoined hopening hf _ =>
    exact ⟨[closer], _, Token.spelled_closer, .operand (.parentheses hopening hf rfl)⟩

theorem Stops.exists_completion (h : Stops length used left r) :
    ∃ us f, Spelled us ∧ Derives .disjunction (used ++ us) f := by
  cases h with
  | empty =>
    exact ⟨[filler], _, Token.spelled_filler, .disjunct (.conjunct (.operand (.name rfl)))⟩
  | within _ hhalts => exact hhalts.exists_completion
  | unmatched hf _ | unjoined hf _ => exact ⟨[], _, nofun, by rwa [List.append_nil]⟩

/-! ## What is looked at cannot follow -/

open Stand

/-- Only what begins an operand is in place before one. -/
theorem Stand.next?_incomplete {d : Nat} (ht : t.kind.startsOperand = false) :
    (⟨false, d⟩ : Stand).next? t = none := by
  unfold next?
  generalize t.kind = kind at *
  cases kind <;> first | rfl | contradiction

/-- Nothing that begins an operand is in place behind one. -/
theorem Stand.next?_complete {d : Nat} (ht : t.kind.startsOperand = true) :
    (⟨true, d⟩ : Stand).next? t = none := by
  unfold next?
  generalize t.kind = kind at *
  cases kind <;> first | rfl | contradiction

/-- **What a reader looks at when it halts is out of place**, however many parentheses are open. -/
theorem Halts.walk? (h : Halts length level previous used left r) (d : Nat) :
    (⟨false, d⟩ : Stand).walk? (used ++ [front length left]) = none := by
  induction h generalizing d with
  | disjunct _ ih | conjunct _ ih => exact ih d
  | or hf hop _ ih | and hf hop _ ih =>
    rw [List.append_assoc, List.cons_append, walk?_append, hf.walk?, Option.bind_some, walk?_cons]
    simp only [next?, hop, Option.bind_some]
    exact ih d
  | not hop _ ih =>
    rw [List.cons_append, walk?_cons]
    simp only [next?, hop, Option.bind_some]
    exact ih d
  | operand hfront => rw [List.nil_append, walk?_cons, next?_incomplete hfront, Option.bind_none]
  | literal ht hdegree => simp [next?, front, ht, hdegree]
  | empty hopening hclosing => simp [next?, front, hopening, hclosing]
  | inside hopening _ _ ih =>
    rw [List.cons_append, walk?_cons]
    simp only [next?, hopening, Option.bind_some]
    exact ih (d + 1)
  | unclosed hopening hf =>
    rw [List.cons_append, walk?_cons]
    simp only [next?, hopening, Option.bind_some]
    rw [walk?_append, hf.walk?]
    simp [next?, front, Token.stop]
  | unjoined hopening hf ht =>
    rw [List.cons_append, walk?_cons]
    simp only [next?, hopening, Option.bind_some]
    rw [walk?_append, hf.walk?, Option.bind_some, walk?_cons, front, next?_complete ht,
      Option.bind_none]

theorem Stops.walk? (h : Stops length used left r) :
    (⟨false, 0⟩ : Stand).walk? (used ++ [front length left]) = none := by
  cases h with
  | empty => rfl
  | within _ hhalts => exact hhalts.walk? 0
  | unmatched hf ht =>
    rw [walk?_append, hf.walk?]
    simp [next?, front, ht]
  | unjoined hf ht =>
    rw [walk?_append, hf.walk?, Option.bind_some, walk?_cons, front, next?_complete ht,
      Option.bind_none]

/-! ## The tokens behind play no part -/

theorem Halts.of_same_front (h : Halts length level previous used left r)
    (hleft : left = t :: after) (more : List Token) :
    Halts length level previous used (t :: more) r := by
  induction h with
  | disjunct _ ih => exact .disjunct (ih hleft)
  | or hf hop _ ih => exact .or hf hop (ih hleft)
  | conjunct _ ih => exact .conjunct (ih hleft)
  | and hf hop _ ih => exact .and hf hop (ih hleft)
  | not hop _ ih => exact .not hop (ih hleft)
  | operand hfront =>
    subst hleft
    have hmore : (front length (t :: more)).kind.startsOperand = false := hfront
    exact .operand hmore
  | literal ht hdegree =>
    obtain ⟨rfl, -⟩ := List.cons_eq_cons.mp hleft
    exact .literal ht hdegree
  | empty hopening hclosing =>
    obtain ⟨rfl, -⟩ := List.cons_eq_cons.mp hleft
    exact .empty hopening hclosing
  | @inside _ _ used _ _ hopening hfront _ ih =>
    subst hleft
    refine .inside hopening ?_ (ih rfl)
    cases used with
    | nil => exact hfront
    | cons u used => exact hfront
  | unclosed _ _ => exact nomatch hleft
  | unjoined hopening hf ht =>
    obtain ⟨rfl, -⟩ := List.cons_eq_cons.mp hleft
    exact .unjoined hopening hf ht

/-- **A refusal rests on the tokens up to the one looked at**: whatever follows that one, the reader
stops there for the same reason. -/
theorem Stops.of_same_front (h : Stops length used (t :: after) r) (more : List Token) :
    Stops length used (t :: more) r := by
  cases h with
  | within _ hhalts => exact .within (by simp) (hhalts.of_same_front rfl more)
  | unmatched hf ht => exact .unmatched hf ht
  | unjoined hf ht => exact .unjoined hf ht

/-! ## Where a refusal is reported -/

/-- The place of a refusal: that of the token looked at, of the one before it, or of a parenthesis
that is still open. -/
def ReportedNear (found : Token) (before used : List Token) (position : Nat) : Prop :=
  position = found.position ∨
    (∃ t, before.getLast? = some t ∧ position = t.position) ∨
    ∃ opening, StillOpen opening used ∧ position = opening.position

theorem reportedNear_diagnose {found : Token} :
    ReportedNear found previous.toList [] (diagnose previous found).position := by
  cases previous with
  | none =>
    left
    unfold diagnose
    split_ifs <;> rfl
  | some p =>
    unfold diagnose
    dsimp only
    split_ifs <;> first | exact .inl rfl | exact .inr (.inl ⟨p, rfl, rfl⟩)

/-- What has been read before an operator or an opening parenthesis plays no part. -/
theorem ReportedNear.append {found op : Token} {position : Nat}
    (h : ReportedNear found (op :: used) used position) (before ts : List Token) :
    ReportedNear found (before ++ op :: used) (ts ++ op :: used) position := by
  rcases h with h | ⟨t, hlast, ht⟩ | ⟨opening, hopen, hopening⟩
  · exact .inl h
  · exact .inr (.inl ⟨t, by rw [List.getLast?_append_of_ne_nil _ (by simp), hlast], ht⟩)
  · refine .inr (.inr ⟨opening, ?_, hopening⟩)
    rw [← List.singleton_append, ← List.append_assoc]
    exact hopen.append

theorem Halts.reportedNear (h : Halts length level previous used left r) :
    ReportedNear (front length left) (previous.toList ++ used) used r.position := by
  induction h with
  | disjunct _ ih | conjunct _ ih => exact ih
  | @or previous ts _ _ _ _ _ _ _ _ ih | @and previous ts _ _ _ _ _ _ _ _ ih =>
    rw [← List.append_assoc]
    exact ih.append (previous.toList ++ ts) ts
  | @not previous _ _ _ _ _ _ ih => exact ih.append previous.toList []
  | operand _ =>
    rw [List.append_nil]
    exact reportedNear_diagnose
  | literal _ _ => exact .inl rfl
  | empty _ _ => exact .inr (.inl ⟨_, List.getLast?_concat, rfl⟩)
  | @inside previous _ _ _ _ _ _ _ ih => exact ih.append previous.toList []
  | unclosed hopening hf => exact .inr (.inr ⟨_, hf.stillOpen hopening, rfl⟩)
  | unjoined _ _ _ => exact .inl rfl

theorem Stops.reportedNear (h : Stops length used left r) :
    ReportedNear (front length left) used used r.position := by
  cases h with
  | empty => exact .inl rfl
  | within _ hhalts => exact hhalts.reportedNear
  | unmatched _ _ | unjoined _ _ => exact .inl rfl

/-! ## Texts -/

variable {source : String} {fault : SyntaxFault}

/-- The end of a text is behind its other tokens. -/
theorem tokenize_of_tokenizes (hts : Token.Tokenizes 0 source.toList ts) :
    tokenize source = .ok (ts ++ [Token.stop source.length]) := by
  rw [tokenize, lexemes_eq_ok_iff.mpr hts]
  rfl

/-- **A beginning that can be completed begins a text that is accepted.** -/
theorem exists_accepted (hts : Token.Tokenizes 0 source.toList (used ++ left)) (hus : Spelled us)
    (hf : Derives .disjunction (used ++ us) f) :
    ∃ accepted g vs, parse accepted = .ok g ∧ tokenize accepted = .ok vs ∧ used <+: vs := by
  obtain ⟨text, -, -, hcut⟩ := hts.exists_cut
  obtain ⟨cs, vs, hcs, hvs, hwritten⟩ := hus.exists_tokenizes (0 + text.length)
  have htokens : Token.Tokenizes 0 (String.ofList (text ++ cs)).toList (used ++ vs) := by
    rw [String.toList_ofList]
    exact hcut cs vs hcs hvs
  have hall : (used ++ vs).map written = (used ++ us).map written := by
    rw [List.map_append, List.map_append, hwritten]
  obtain ⟨g, hg⟩ := hf.of_written hall
  exact ⟨_, g, _, parse_eq_ok_iff.mpr ⟨_, htokens, hg⟩, tokenize_of_tokenizes htokens,
    (List.prefix_append used vs).trans (List.prefix_append _ _)⟩

/-- Tokens that a reader cannot get over begin no text that is accepted. -/
theorem not_begins_accepted (hus : (⟨false, 0⟩ : Stand).walk? us = none) :
    ∀ accepted f vs, parse accepted = .ok f → tokenize accepted = .ok vs →
      ¬ us.map written <+: vs.map written := by
  intro accepted f vs hparse htokenize
  obtain ⟨ts, hts, hf⟩ := parse_eq_ok_iff.mp hparse
  rw [tokenize_of_tokenizes hts] at htokenize
  obtain rfl := Except.ok.inj htokenize
  exact hf.not_begins rfl hus

/-- A text that is refused though it has tokens stops their reader. -/
theorem stops_of_parse (hts : lexemes source = .ok ts) (h : parse source = .error fault) :
    ∃ used left, ts = used ++ left ∧ Stops source.length used left fault.refusal := by
  rw [parse, hts] at h
  obtain ⟨r, hr, rfl⟩ := Outcome.mapError_eq_error.mp h
  exact stops_of_ofTokens (lexemes_eq_ok_iff.mp hts).exists_lexeme hr

/-- What is near the tokens of a text lies within it. -/
theorem ReportedNear.le_length (hts : lexemes source = .ok (used ++ left)) {position : Nat}
    (h : ReportedNear (front source.length left) used used position) :
    position ≤ source.length := by
  have hwithin : ∀ t ∈ used ++ left, t.position ≤ source.length := by
    intro t ht
    have := (lexemes_eq_ok_iff.mp hts).position_le t ht
    rwa [Nat.zero_add, String.length_toList] at this
  rcases h with rfl | ⟨t, hlast, rfl⟩ | ⟨opening, ⟨-, before, after, rfl, -⟩, rfl⟩
  · cases left with
    | nil => exact Nat.le_refl _
    | cons t left => exact hwithin t (List.mem_append_right used List.mem_cons_self)
  · exact hwithin t (List.mem_append_left left (List.mem_of_getLast? hlast))
  · exact hwithin opening (by simp)

/-- **A text is refused at its first misfit.**  Of a text that has tokens and is refused, let the
reader have got over `used` and look at the front of `left`, or at the end of the text, when it
refuses.  Then

* whatever follows the token looked at, the reader stops at it for the same reason;
* the tokens before it begin an accepted text;
* the tokens up to it begin none, be it the end of the text or one of its tokens;
* the place reported is that of this token, of the one before it or of a parenthesis before it that
  is still open, and lies within the text. -/
theorem refused_at_first_misfit (hts : lexemes source = .ok ts) (h : parse source = .error fault) :
    ∃ used left, ts = used ++ left ∧ Stops source.length used left fault.refusal ∧
      (∀ t after more, left = t :: after →
        ofTokens source.length (used ++ t :: more) = .error fault.refusal) ∧
      (∃ accepted f us, parse accepted = .ok f ∧ tokenize accepted = .ok us ∧ used <+: us) ∧
      (∀ accepted f us, parse accepted = .ok f → tokenize accepted = .ok us →
        ¬ (used ++ [front source.length left]).map written <+: us.map written) ∧
      ReportedNear (front source.length left) used used fault.position ∧
      fault.position ≤ source.length := by
  obtain ⟨used, left, rfl, hstops⟩ := stops_of_parse hts h
  obtain ⟨us, f, hus, hf⟩ := hstops.exists_completion
  have hnear : ReportedNear (front source.length left) used used fault.position :=
    hstops.reportedNear
  refine ⟨used, left, rfl, hstops, ?_, exists_accepted (lexemes_eq_ok_iff.mp hts) hus hf,
    not_begins_accepted hstops.walk?, hnear, hnear.le_length hts⟩
  rintro t after more rfl
  exact (hstops.of_same_front more).ofTokens

/-- The text `(a |` is refused at its end, and reported at the operator before it. -/
theorem unfinished_disjunction_refused_at_end :
    ∃ ts fault, lexemes "(a |" = .ok ts ∧ parse "(a |" = .error fault ∧ fault.position = 3 ∧
      ∃ used left, ts = used ++ left ∧ Stops 4 used left fault.refusal ∧
        ReportedNear (front 4 left) used used fault.position := by
  have hor : Token.Tokenizes 3 "|".toList [⟨.or, "|", 3⟩] := .lexeme (.symbol (c := '|') rfl) .done
  have hname : Token.Tokenizes 1 "a |".toList [⟨.ident, "a", 1⟩, ⟨.or, "|", 3⟩] :=
    .lexeme (.ident ⟨'a', [], rfl, rfl, nofun⟩ (Text.stops_cons.mpr rfl))
      (.blank (c := ' ') rfl hor)
  have hts : lexemes "(a |" = .ok [⟨.leftParen, "(", 0⟩, ⟨.ident, "a", 1⟩, ⟨.or, "|", 3⟩] :=
    lexemes_eq_ok_iff.mpr (.lexeme (.symbol (c := '(') rfl) hname)
  have hleft : Derives .disjunction [⟨.ident, "a", 1⟩] (.name "a" 1) :=
    .disjunct (.conjunct (.operand (.name rfl)))
  have hright : Halts 4 .conjunction (some ⟨.or, "|", 3⟩) [] [] _ := .conjunct (.operand rfl)
  have hstops : Stops 4 [⟨.leftParen, "(", 0⟩, ⟨.ident, "a", 1⟩, ⟨.or, "|", 3⟩] [] _ :=
    .within (by simp) (.disjunct (.conjunct (.inside rfl (by decide) (.or hleft rfl hright))))
  have hparse : parse "(a |" =
      .error ⟨"(a |", refuse (.trailingOperator ⟨.or, "|", 3⟩) ⟨.or, "|", 3⟩⟩ := by
    rw [parse, hts]
    exact congrArg (Except.mapError (SyntaxFault.mk "(a |")) hstops.ofTokens
  obtain ⟨used, left, hsplit, hstop, -, -, -, hnear, -⟩ := refused_at_first_misfit hts hparse
  exact ⟨_, _, hts, hparse, rfl, used, left, hsplit, hstop, hnear⟩

end Formula

end FuzzyLogic
