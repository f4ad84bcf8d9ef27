import FuzzyLogic.Proofs.Formula.Canonical
import FuzzyLogic.Proofs.Formula.Tiling
import Mathlib.Data.List.Forall2
import Mathlib.Logic.Relation

/-!
# Proofs/Formula/Layout — the layout of a text plays no part

The reader goes by kinds and texts of tokens: their places are only passed on, to the leaves of a
formula and to a refusal, and so is the spelling of negation, to the wording of a refusal.  So reading
commutes with `Token.recast`, which puts tokens at other places and writes `!` for `~`
(`ofTokens_recast`).

Token lists of two texts that are alike are the same list once the place of every token is replaced
by its index (`map_recast_eq`), and reading that list gives what reading either gives, recast.
-/

namespace FuzzyLogic

/-! ## Spelling -/

/-- The text with `!` for `~`. -/
def respelled (s : String) : String :=
  String.ofList (s.toList.map fun c => if c = '~' then '!' else c)

theorem respelled_append (s t : String) : respelled (s ++ t) = respelled s ++ respelled t := by
  rw [respelled, String.toList_append, List.map_append, String.ofList_append]
  rfl

@[simp] theorem respelled_respelled (s : String) : respelled (respelled s) = respelled s := by
  rw [respelled, respelled, String.toList_ofList, List.map_map]
  congr 2
  funext c
  by_cases h : c = '~' <;> simp [h]

/-- Either spelling of negation becomes `!`. -/
theorem respelled_negation {s : String} (h : s = "!" ∨ s = "~") : respelled s = "!" := by
  rcases h with rfl | rfl <;> cbv

namespace Token

/-- The token at another place, with `!` for negation. -/
def recast (place : Nat → Nat) (t : Token) : Token :=
  ⟨t.kind, if t.kind = .not then respelled t.text else t.text, place t.position⟩

variable {place : Nat → Nat} {t u : Token}

theorem text_recast (h : t.kind ≠ .not) : (t.recast place).text = t.text := if_neg h

theorem respelled_describe_recast (place : Nat → Nat) (t : Token) :
    respelled (t.recast place).describe = respelled t.describe := by
  unfold describe recast
  split_ifs <;> simp only [respelled_append, respelled_respelled]

end Token

open Token (recast)

/-- The cause with its tokens recast. -/
def RefusalCause.recast (place : Nat → Nat) : RefusalCause → RefusalCause
  | .missingOperator found => .missingOperator (found.recast place)
  | .danglingNegation op => .danglingNegation (op.recast place)
  | .leadingOperator op => .leadingOperator (op.recast place)
  | .consecutiveOperators first second =>
    .consecutiveOperators (first.recast place) (second.recast place)
  | .missingLeft op => .missingLeft (op.recast place)
  | .missingRight op => .missingRight (op.recast place)
  | .trailingOperator op => .trailingOperator (op.recast place)
  | .missingOperand found => .missingOperand (found.recast place)
  | .unexpected found => .unexpected (found.recast place)
  | .expectedClose found => .expectedClose (found.recast place)
  | cause => cause

/-- Recasting changes a reason in the spelling of negation only. -/
theorem RefusalCause.respelled_reason_recast (place : Nat → Nat) (cause : RefusalCause) :
    respelled (cause.recast place).reason = respelled cause.reason := by
  cases cause with
  | consecutiveOperators _ _ | missingOperator _ | danglingNegation _ | leadingOperator _
  | missingLeft _ | missingRight _ | trailingOperator _ | missingOperand _ | unexpected _
  | expectedClose _ =>
    unfold RefusalCause.recast reason
    simp only [respelled_append, Token.respelled_describe_recast]
  | _ =>
    unfold RefusalCause.recast
    rfl

/-- The refusal with its tokens recast, at another place. -/
def Refusal.recast (place : Nat → Nat) (r : Refusal) : Refusal :=
  ⟨r.cause.recast place, place r.position⟩

namespace Formula

open Token (Spelled)

/-- The formula with its leaves at other places. -/
def relocated (place : Nat → Nat) : Formula → Formula
  | name text position => name text (place position)
  | literal value position => literal value (place position)
  | negation operand => negation (operand.relocated place)
  | conjunction left right => conjunction (left.relocated place) (right.relocated place)
  | disjunction left right => disjunction (left.relocated place) (right.relocated place)

variable {place : Nat → Nat} {length : Nat} {level : Level} {previous : Option Token}
  {ts us used left : List Token} {t u : Token} {f g : Formula} {r : Refusal}

theorem unplaced_relocated (place : Nat → Nat) (f : Formula) :
    (f.relocated place).unplaced = f.unplaced := by
  induction f with
  | name | literal => rfl
  | negation f ih => rw [relocated, unplaced, ih, unplaced]
  | conjunction f g ihf ihg | disjunction f g ihf ihg =>
    rw [relocated, unplaced, ihf, ihg, unplaced]

/-! ## Reading commutes with recasting -/

/-- Phrases stay phrases. -/
theorem Derives.recast (place : Nat → Nat) (h : Derives level ts f) :
    Derives level (ts.map (recast place)) (f.relocated place) := by
  induction h with
  | disjunct _ ih => exact .disjunct ih
  | or _ hop _ ihf ihg =>
    rw [List.map_append, List.map_cons]
    exact .or ihf hop ihg
  | conjunct _ ih => exact .conjunct ih
  | and _ hop _ ihf ihg =>
    rw [List.map_append, List.map_cons]
    exact .and ihf hop ihg
  | not hop _ ih => exact .not hop ih
  | operand _ ih => exact .operand ih
  | @name t ht =>
    have hname : Derives .primary [t.recast place] (.name (t.recast place).text (place t.position)) :=
      .name ht
    rwa [Token.text_recast (by simp [ht])] at hname
  | number ht hvalue =>
    refine .number ht ?_
    rwa [Token.text_recast (by simp [ht])]
  | parentheses hopening _ hclosing ih =>
    rw [List.map_cons, List.map_append, List.map_singleton]
    exact .parentheses hopening ih hclosing

theorem front_recast : front (place length) (left.map (recast place)) =
    (front length left).recast place := by
  cases left <;> rfl

theorem diagnose_recast : diagnose (previous.map (recast place)) (t.recast place) =
    (diagnose previous t).recast place := by
  cases previous with
  | none | some p =>
    simp only [diagnose, apply_ite (Refusal.recast place)]
    rfl

/-- Readers halt at the same token. -/
theorem Halts.recast (place : Nat → Nat) (h : Halts length level previous used left r) :
    Halts (place length) level (previous.map (recast place)) (used.map (recast place))
      (left.map (recast place)) (r.recast place) := by
  induction h with
  | disjunct _ ih => exact .disjunct ih
  | or hf hop _ ih =>
    rw [List.map_append, List.map_cons]
    exact .or (hf.recast place) hop ih
  | conjunct _ ih => exact .conjunct ih
  | and hf hop _ ih =>
    rw [List.map_append, List.map_cons]
    exact .and (hf.recast place) hop ih
  | not hop _ ih => exact .not hop ih
  | operand hfront =>
    rw [← diagnose_recast, ← front_recast]
    refine .operand ?_
    rwa [front_recast]
  | @literal previous t after ht hdegree =>
    have htext : (t.recast place).text = t.text := Token.text_recast (by simp [ht])
    have hhalts : Halts (place length) .negation (previous.map (Token.recast place)) []
        (t.recast place :: after.map (Token.recast place)) _ :=
      .literal ht (by rwa [htext])
    rwa [htext] at hhalts
  | empty hopening hclosing => exact .empty hopening hclosing
  | inside hopening hfront _ ih =>
    refine .inside hopening ?_ ih
    rwa [← List.map_append, front_recast]
  | unclosed hopening hf => exact .unclosed hopening (hf.recast place)
  | unjoined hopening hf ht => exact .unjoined hopening (hf.recast place) ht

theorem Stops.recast (place : Nat → Nat) (h : Stops length used left r) :
    Stops (place length) (used.map (recast place)) (left.map (recast place)) (r.recast place) := by
  cases h with
  | empty => exact .empty
  | within hne hhalts =>
    refine .within ?_ (hhalts.recast place)
    rwa [← List.map_append, ne_eq, List.map_eq_nil_iff]
  | unmatched hf ht => exact .unmatched (hf.recast place) ht
  | unjoined hf ht => exact .unjoined (hf.recast place) ht

/-- What reading gives, recast. -/
def recastOutcome (place : Nat → Nat) (r : Except Refusal Formula) : Except Refusal Formula :=
  (r.map (relocated place)).mapError (Refusal.recast place)

/-- **Reading commutes with recasting.** -/
theorem ofTokens_recast (place : Nat → Nat) (length : Nat) (hts : Spelled ts) :
    ofTokens (place length) (ts.map (recast place)) = recastOutcome place (ofTokens length ts) := by
  cases hread : ofTokens length ts with
  | ok f => exact ofTokens_of_derives _ ((derives_of_ofTokens hts.numerals hread).recast place)
  | error r =>
    obtain ⟨used, left, rfl, hstops⟩ := stops_of_ofTokens hts hread
    rw [List.map_append]
    exact (hstops.recast place).ofTokens

/-- A refusal is reported at one of the tokens, the end included. -/
theorem Stops.exists_token (h : Stops length used left r) :
    ∃ t ∈ used ++ left ++ [Token.stop length], r.position = t.position := by
  rcases h.reportedNear with hfront | ⟨t, hlast, ht⟩ | ⟨opening, ⟨-, before, after, rfl, -⟩, ht⟩
  · refine ⟨front length left, ?_, hfront⟩
    cases left with
    | nil => simp [front]
    | cons t left => simp [front]
  · have hmem := List.mem_of_getLast? hlast
    exact ⟨t, by simp [hmem], ht⟩
  · exact ⟨opening, by simp, ht⟩

end Formula

/-! ## Token lists that are alike -/

namespace Token

/-- Tokens of one kind and text, but for the spelling of negation. -/
def Alike (t u : Token) : Prop :=
  t.kind = u.kind ∧ (t.text = u.text ∨
    t.kind = .not ∧ (t.text = "!" ∨ t.text = "~") ∧ (u.text = "!" ∨ u.text = "~"))

/-- The index of the token at a place. -/
def indexIn (ts : List Token) (position : Nat) : Nat := (ts.map Token.position).idxOf position

variable {ts us : List Token} {t u : Token}

theorem indexIn_getElem (h : ts.Pairwise fun t u => t.position < u.position) {i : Nat}
    (hi : i < ts.length) : indexIn ts ts[i].position = i := by
  have hnodup : (ts.map Token.position).Nodup :=
    List.pairwise_map.mpr (h.imp fun hlt => Nat.ne_of_lt hlt)
  have hget := hnodup.idxOf_getElem i (by rwa [List.length_map])
  rwa [List.getElem_map] at hget

theorem Alike.recast_eq (h : Alike t u) {place place' : Nat → Nat}
    (hplace : place t.position = place' u.position) : t.recast place = u.recast place' := by
  obtain ⟨kind, text, position⟩ := t
  obtain ⟨kind', text', position'⟩ := u
  obtain ⟨rfl, htext⟩ := h
  rw [recast, recast, hplace]
  dsimp only at htext ⊢
  rcases htext with rfl | ⟨rfl, htext, htext'⟩
  · rfl
  · rw [if_pos rfl, if_pos rfl, respelled_negation htext, respelled_negation htext']

/-- **Alike lists are one list**, once every token is at its index. -/
theorem map_recast_eq (hts : ts.Pairwise fun t u => t.position < u.position)
    (hus : us.Pairwise fun t u => t.position < u.position) (h : List.Forall₂ Alike ts us) :
    ts.map (recast (indexIn ts)) = us.map (recast (indexIn us)) := by
  refine List.ext_getElem (by simp [h.length_eq]) fun i hi hi' => ?_
  rw [List.length_map] at hi hi'
  rw [List.getElem_map, List.getElem_map]
  exact (h.get hi hi').recast_eq ((indexIn_getElem hts hi).trans (indexIn_getElem hus hi').symm)

/-! ## Blanks between tokens -/

section Blanks

variable {position : Nat} {cs rest blanks : List Char} {kind : TokenKind} {text : List Char}

/-- A number may end before a blank. -/
theorem endsNumber_of_isBlank {c : Char} (h : Text.isBlank c = true) :
    endsNumber (c :: rest) = true := by
  have hident : isIdentChar c = false := by
    by_contra hname
    rcases Bool.or_eq_true_iff.mp (Bool.not_eq_false _ ▸ hname) with hstart | hdigit
    · exact Bool.false_ne_true ((isBlank_of_isIdentStart hstart).symm.trans h)
    · exact Bool.false_ne_true ((isBlank_of_isDigit hdigit).symm.trans h)
  have hpoint : c ≠ '.' := by
    rintro rfl
    cases h
  simp [endsNumber, hident, hpoint]

/-- A text has the same tokens wherever it stands. -/
theorem Tokenizes.exists_shifted (h : Tokenizes position cs ts) (position' : Nat) :
    ∃ us, Tokenizes position' cs us ∧ us.map written = ts.map written := by
  induction h generalizing position' with
  | done => exact ⟨[], .done, rfl⟩
  | blank hc _ ih =>
    obtain ⟨us, hus, hwritten⟩ := ih (position' + 1)
    exact ⟨us, .blank hc hus, hwritten⟩
  | lexeme hlex _ ih =>
    obtain ⟨us, hus, hwritten⟩ := ih _
    exact ⟨_, .lexeme hlex hus, congrArg (_ :: ·) hwritten⟩

/-- And behind blanks. -/
theorem Tokenizes.exists_behind (hblanks : ∀ c ∈ blanks, Text.isBlank c = true)
    (h : Tokenizes position cs ts) (position' : Nat) :
    ∃ us, Tokenizes position' (blanks ++ cs) us ∧ us.map written = ts.map written := by
  induction blanks generalizing position' with
  | nil => exact h.exists_shifted position'
  | cons c blanks ih =>
    rw [List.forall_mem_cons] at hblanks
    obtain ⟨us, hus, hwritten⟩ := ih hblanks.2 (position' + 1)
    exact ⟨us, .blank hblanks.1 hus, hwritten⟩

/-- A lexeme stays one when blanks are put somewhere behind it. -/
theorem Lexeme.of_blanks {front back : List Char} (hblanks : ∀ c ∈ blanks, Text.isBlank c = true)
    (h : Lexeme kind text (front ++ back)) : Lexeme kind text (front ++ (blanks ++ back)) := by
  cases front with
  | cons c front => exact h.of_head?_eq rfl
  | nil =>
    cases blanks with
    | nil => exact h
    | cons c blanks => exact h.of_endsNumber (endsNumber_of_isBlank (hblanks c List.mem_cons_self))

/-- **Blanks put between tokens leave kinds and texts alone.** -/
theorem Tokenizes.exists_spaced {front back : List Char}
    (hblanks : ∀ c ∈ blanks, Text.isBlank c = true) (h : Tokenizes position (front ++ back) ts)
    (hcut : ∀ t ∈ ts, position + front.length ≤ t.position ∨
      t.position + t.text.length ≤ position + front.length) :
    ∃ us, Tokenizes position (front ++ (blanks ++ back)) us ∧
      us.map written = ts.map written := by
  generalize hall : front ++ back = all at h
  induction h generalizing front with
  | @done position =>
    obtain ⟨rfl, rfl⟩ := List.append_eq_nil_iff.mp hall
    exact Tokenizes.exists_behind hblanks (@Tokenizes.done position) position
  | @blank position c cs ts hc h ih =>
    cases front with
    | nil =>
      obtain rfl : back = c :: cs := hall
      exact Tokenizes.exists_behind hblanks (.blank hc h) position
    | cons d front =>
      obtain ⟨rfl, hmore⟩ := List.cons_eq_cons.mp hall
      rw [List.length_cons, Nat.add_comm front.length, ← Nat.add_assoc] at hcut
      obtain ⟨us, hus, hwritten⟩ := ih hcut hmore
      exact ⟨us, .blank hc hus, hwritten⟩
  | @lexeme position kind text rest ts hlex h ih =>
    rw [List.forall_mem_cons] at hcut
    obtain ⟨hhead, hcut⟩ := hcut
    cases front with
    | nil =>
      obtain rfl : back = text ++ rest := hall
      exact Tokenizes.exists_behind hblanks (.lexeme hlex h) position
    | cons c front =>
      -- the cut is not before the lexeme, so it is behind it
      have hle : text.length ≤ (c :: front).length := by
        rw [String.length_ofList] at hhead
        simp only [List.length_cons] at hhead ⊢
        omega
      obtain ⟨more, hsplit⟩ : text <+: c :: front :=
        List.prefix_of_prefix_length_le ⟨rest, rfl⟩ ⟨back, hall⟩ hle
      rw [← hsplit] at hall hcut ⊢
      rw [List.append_assoc, List.append_cancel_left_eq] at hall
      rw [List.length_append, ← Nat.add_assoc] at hcut
      obtain ⟨us, hus, hwritten⟩ := ih hcut hall
      subst hall
      rw [List.append_assoc]
      exact ⟨_, .lexeme (hlex.of_blanks hblanks) hus, congrArg (_ :: ·) hwritten⟩

end Blanks

end Token

/-! ## Texts -/

namespace Compiled

open Token (Alike indexIn)

variable {source source' : String} {c d : Compiled} {ts us : List Token}

/-- Formulas that are equal but for the places of their leaves. -/
structure SameTree (c d : Compiled) : Prop where
  formula : d.formula.unplaced = c.formula.unplaced
  canonical : d.canonical = c.canonical
  names : d.names = c.names
  hasLiterals : d.hasLiterals = c.hasLiterals

theorem SameTree.of_unplaced_eq (h : d.formula.unplaced = c.formula.unplaced) : SameTree c d :=
  ⟨h, Formula.canonical_eq_of_unplaced_eq h, Formula.names_eq_of_unplaced_eq h,
    Formula.hasLiterals_eq_of_unplaced_eq h⟩

theorem SameTree.trans {e : Compiled} (h : SameTree c d) (h' : SameTree d e) : SameTree c e :=
  .of_unplaced_eq (h'.formula.trans h.formula)

/-- Compiling a text that has tokens is reading these. -/
theorem ofSource_of_tokenizes (hts : Token.Tokenizes 0 source.toList ts) : ofSource source =
    ((Formula.ofTokens source.length ts).mapError
      fun r => Fault.syntaxFault ⟨source, r⟩).map (⟨source, ·⟩) := by
  rw [ofSource, Formula.parse, Formula.lexemes_eq_ok_iff.mpr hts]
  show (((Formula.ofTokens source.length ts).mapError (SyntaxFault.mk source)).mapError
    Fault.syntaxFault).map _ = _
  cases Formula.ofTokens source.length ts <;> rfl

/-- The places of the tokens of a text increase. -/
theorem increasing (hts : Token.Tokenizes 0 source.toList ts) :
    (ts ++ [Token.stop source.length]).Pairwise fun t u => t.position < u.position := by
  have htiles := hts.tiles.increasing
  rwa [String.length_toList] at htiles

/-- **Texts whose tokens are alike are read alike.** -/
theorem recastOutcome_eq (hts : Token.Tokenizes 0 source.toList ts)
    (hus : Token.Tokenizes 0 source'.toList us)
    (h : List.Forall₂ Alike (ts ++ [Token.stop source.length])
      (us ++ [Token.stop source'.length])) :
    Formula.recastOutcome (indexIn (ts ++ [Token.stop source.length]))
        (Formula.ofTokens source.length ts) =
      Formula.recastOutcome (indexIn (us ++ [Token.stop source'.length]))
        (Formula.ofTokens source'.length us) := by
  have hmap := Token.map_recast_eq (increasing hts) (increasing hus) h
  rw [List.map_append, List.map_append, List.map_singleton, List.map_singleton,
    List.append_singleton_inj] at hmap
  obtain ⟨htokens, hstop⟩ := hmap
  have hlength : indexIn (ts ++ [Token.stop source.length]) source.length =
      indexIn (us ++ [Token.stop source'.length]) source'.length := congrArg Token.position hstop
  rw [← Formula.ofTokens_recast _ _ hts.exists_lexeme, ← Formula.ofTokens_recast _ _
    hus.exists_lexeme, htokens, hlength]

/-- A refusal is reported at a token with an index. -/
theorem exists_index (hts : Token.Tokenizes 0 source.toList ts) {r : Refusal}
    (h : Formula.ofTokens source.length ts = .error r) : ∃ t,
      (ts ++ [Token.stop source.length])[indexIn (ts ++ [Token.stop source.length]) r.position]? =
        some t ∧ r.position = t.position := by
  obtain ⟨used, left, rfl, hstops⟩ := Formula.stops_of_ofTokens hts.exists_lexeme h
  obtain ⟨t, ht, hposition⟩ := hstops.exists_token
  obtain ⟨i, hi, rfl⟩ := List.getElem_of_mem ht
  refine ⟨_, ?_, hposition⟩
  rw [hposition, Token.indexIn_getElem (increasing hts) hi, List.getElem?_eq_getElem hi]

theorem ofSource_of_ok (hts : Token.Tokenizes 0 source.toList ts) {f : Formula}
    (h : Formula.ofTokens source.length ts = .ok f) : ofSource source = .ok ⟨source, f⟩ := by
  rw [ofSource_of_tokenizes hts, h]
  rfl

theorem ofSource_of_error (hts : Token.Tokenizes 0 source.toList ts) {r : Refusal}
    (h : Formula.ofTokens source.length ts = .error r) :
    ofSource source = .error (.syntaxFault ⟨source, r⟩) := by
  rw [ofSource_of_tokenizes hts, h]
  rfl

/-- Both texts are accepted, with one tree but for places, or both are refused, with one reason but
for the spelling of negation, at tokens of one index. -/
def SameOutcome (source source' : String) (ts us : List Token) : Prop :=
  (∃ c d, ofSource source = .ok c ∧ ofSource source' = .ok d ∧ SameTree c d) ∨
  ∃ f g, ofSource source = .error (.syntaxFault f) ∧ ofSource source' = .error (.syntaxFault g) ∧
    respelled f.reason = respelled g.reason ∧ ∃ (i : Nat) (t u : Token),
      ts[i]? = some t ∧ us[i]? = some u ∧ f.position = t.position ∧ g.position = u.position

/-- **Texts whose tokens are alike fare alike.** -/
theorem sameOutcome_of_alike (htokens : tokenize source = .ok ts)
    (htokens' : tokenize source' = .ok us) (h : List.Forall₂ Alike ts us) :
    SameOutcome source source' ts us := by
  obtain ⟨ts, hts, rfl⟩ := Token.tokenize_eq_ok_iff.mp htokens
  obtain ⟨us, hus, rfl⟩ := Token.tokenize_eq_ok_iff.mp htokens'
  have hsame := recastOutcome_eq hts hus h
  cases hread : Formula.ofTokens source.length ts with
  | ok f =>
    cases hread' : Formula.ofTokens source'.length us with
    | ok g =>
      rw [hread, hread'] at hsame
      have hformula := congrArg Formula.unplaced (Except.ok.inj hsame)
      rw [Formula.unplaced_relocated, Formula.unplaced_relocated] at hformula
      exact .inl ⟨_, _, ofSource_of_ok hts hread, ofSource_of_ok hus hread',
        .of_unplaced_eq hformula.symm⟩
    | error r' =>
      rw [hread, hread'] at hsame
      cases hsame
  | error r =>
    cases hread' : Formula.ofTokens source'.length us with
    | ok g =>
      rw [hread, hread'] at hsame
      cases hsame
    | error r' =>
      rw [hread, hread'] at hsame
      have hrefusal := Except.error.inj hsame
      have hreason := congrArg (fun r => respelled r.cause.reason) hrefusal
      have hposition := congrArg Refusal.position hrefusal
      simp only [Refusal.recast, RefusalCause.respelled_reason_recast] at hreason hposition
      obtain ⟨t, ht, hplace⟩ := exists_index hts hread
      obtain ⟨u, hu, hplace'⟩ := exists_index hus hread'
      rw [hposition] at ht
      exact .inr ⟨_, _, ofSource_of_error hts hread, ofSource_of_error hus hread', hreason,
        _, t, u, ht, hu, hplace, hplace'⟩

/-! ## Blanks put between tokens -/

/-- Blanks put into a text where they cut no token in two. -/
def Spaced (source source' : String) : Prop :=
  ∃ ts front blanks back, tokenize source = .ok ts ∧ source.toList = front ++ back ∧
    (∀ c ∈ blanks, Text.isBlank c = true) ∧
    (∀ t ∈ ts, front.length ≤ t.position ∨ t.position + t.text.length ≤ front.length) ∧
    source'.toList = front ++ (blanks ++ back)

theorem Spaced.exists_alike (h : Spaced source source') : ∃ ts us, tokenize source = .ok ts ∧
    tokenize source' = .ok us ∧ List.Forall₂ Alike ts us := by
  obtain ⟨_, front, blanks, back, htokens, hsource, hblanks, hcut, hsource'⟩ := h
  obtain ⟨ts, hts, rfl⟩ := Token.tokenize_eq_ok_iff.mp htokens
  rw [hsource] at hts
  obtain ⟨us, hus, hwritten⟩ := hts.exists_spaced hblanks fun t ht => by
    simpa only [Nat.zero_add] using hcut t (List.mem_append_left _ ht)
  rw [← hsource'] at hus
  have hsame : List.Forall₂ (· = ·) (ts.map Token.written) (us.map Token.written) := by
    rw [List.forall₂_eq_eq_eq, hwritten]
  rw [List.forall₂_map_left_iff, List.forall₂_map_right_iff] at hsame
  have halike : List.Forall₂ Alike ts us := hsame.imp fun t u h =>
    ⟨congrArg Prod.fst h, .inl (congrArg Prod.snd h)⟩
  exact ⟨_, _, htokens, Token.tokenize_eq_ok_iff.mpr ⟨us, hus, rfl⟩,
    List.rel_append halike (.cons ⟨rfl, .inl rfl⟩ .nil)⟩

/-- Blanks between tokens leave an accepted text accepted, with its tree. -/
theorem Spaced.exists_sameTree (h : Spaced source source') (hc : ofSource source = .ok c) :
    ∃ d, ofSource source' = .ok d ∧ SameTree c d := by
  obtain ⟨ts, us, hts, hus, halike⟩ := h.exists_alike
  rcases sameOutcome_of_alike hts hus halike with ⟨c', d, hc', hd, hsame⟩ | ⟨f, -, hf, -⟩
  · rw [hc] at hc'
    obtain rfl := Except.ok.inj hc'
    exact ⟨d, hd, hsame⟩
  · rw [hc] at hf
    cases hf

/-- **The layout of a text plays no part.**

* Two texts that have tokens, of the same kinds and texts but for the spelling of negation, are both
  accepted, with formulas that are equal but for places, or both refused, for a reason that is the same
  but for the spelling of negation, at the same token.
* Blanks put into an accepted text, any number of times and wherever they cut no token in two, leave
  its formula as it is but for places. -/
theorem layout_plays_no_part :
    (∀ (source source' : String) (ts us : List Token), tokenize source = .ok ts →
      tokenize source' = .ok us → List.Forall₂ Alike ts us → SameOutcome source source' ts us) ∧
    ∀ (source source' : String) (c : Compiled), ofSource source = .ok c →
      Relation.ReflTransGen Spaced source source' →
      ∃ d, ofSource source' = .ok d ∧ SameTree c d := by
  refine ⟨fun source source' ts us => sameOutcome_of_alike, fun source source' c hc h => ?_⟩
  induction h with
  | refl => exact ⟨c, hc, .of_unplaced_eq rfl⟩
  | tail _ hspaced ih =>
    obtain ⟨d, hd, hsame⟩ := ih
    obtain ⟨e, he, hsame'⟩ := hspaced.exists_sameTree hd
    exact ⟨e, he, hsame.trans hsame'⟩

/-- `a !b` and `a ~ b` are refused alike, and `a|b` with a line break is what it is without. -/
theorem layout_of_a_or_b :
    SameOutcome "a !b" "a ~ b"
      [⟨.ident, "a", 0⟩, ⟨.not, "!", 2⟩, ⟨.ident, "b", 3⟩, .stop 4]
      [⟨.ident, "a", 0⟩, ⟨.not, "~", 2⟩, ⟨.ident, "b", 4⟩, .stop 5] ∧
    ∃ c d, ofSource "a|b" = .ok c ∧ ofSource "a\n|b" = .ok d ∧ SameTree c d := by
  obtain ⟨halike, hblanks⟩ := layout_plays_no_part
  have hblank : ∀ c ∈ ['\n'], Text.isBlank c = true := List.forall_mem_singleton.mpr rfl
  have hspaced : Spaced "a|b" "a\n|b" :=
    ⟨[⟨.ident, "a", 0⟩, ⟨.or, "|", 1⟩, ⟨.ident, "b", 2⟩, .stop 3], ['a'], ['\n'],
      ['|', 'b'], by cbv, rfl, hblank, by decide, rfl⟩
  have hread : ofSource "a|b" = .ok ⟨"a|b", .disjunction (.name "a" 0) (.name "b" 2)⟩ := by cbv
  obtain ⟨d, hd, hsame⟩ := hblanks _ _ _ hread (.single hspaced)
  refine ⟨halike _ _ _ _ (by cbv) (by cbv) ?_, _, d, hread, hd, hsame⟩
  refine .cons ⟨rfl, .inl rfl⟩ (.cons ⟨rfl, .inr ⟨rfl, .inl rfl, .inr rfl⟩⟩ ?_)
  exact .cons ⟨rfl, .inl rfl⟩ (.cons ⟨rfl, .inl rfl⟩ .nil)

end Compiled

end FuzzyLogic
