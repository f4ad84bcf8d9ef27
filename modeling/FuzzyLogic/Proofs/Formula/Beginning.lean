import FuzzyLogic.Proofs.Formula.Compilation
import Mathlib.Data.List.Basic

/-!
# Proofs/Formula/Beginning — how formulas begin

A reader that goes over tokens from left to right need only know two things (`Stand`): whether an
operand has just been completed, and how many parentheses are open.  Every token either takes it to
a next stand or is out of place.  Over a phrase it gets from an open place to a complete operand with
as many open parentheses as before (`Derives.walk?`), so that **tokens it cannot get over begin no
formula** (`Derives.not_begins`).

A text may be cut off behind any token, and written on: the tokens before the cut stay as they are
(`Tokenizes.exists_cut`).
-/

namespace FuzzyLogic

namespace Token

/-- What a token was written as, wherever it stands. -/
def written (t : Token) : TokenKind × String := (t.kind, t.text)

variable {kind : TokenKind} {text rest cs : List Char} {t : Token} {ts us : List Token}
  {position : Nat}

/-! ## Cutting texts -/

/-- A lexeme depends on the first character behind it only. -/
theorem Lexeme.of_head?_eq {rest' : List Char} (h : Lexeme kind text rest)
    (hhead : rest'.head? = rest.head?) : Lexeme kind text rest' := by
  cases h with
  | symbol hc => exact .symbol hc
  | ident hident hrest => exact .ident hident (by rwa [Text.Stops, hhead])
  | number hq hrest =>
    refine .number hq ?_
    cases rest' <;> cases rest <;> simp_all [endsNumber]

/-- A lexeme may end wherever a number may. -/
theorem Lexeme.of_endsNumber {rest' : List Char} (h : Lexeme kind text rest)
    (hrest : endsNumber rest' = true) : Lexeme kind text rest' := by
  cases h with
  | symbol hc => exact .symbol hc
  | ident hident _ => exact .ident hident (stops_isIdentChar_of_endsNumber hrest)
  | number hq _ => exact .number hq hrest

/-- **A text may be cut off behind any token**, and written on with what a number may end before. -/
theorem Tokenizes.exists_cut (h : Tokenizes position cs (ts ++ us)) :
    ∃ front back, cs = front ++ back ∧ ∀ rest vs, endsNumber rest = true →
      Tokenizes (position + front.length) rest vs →
      Tokenizes position (front ++ rest) (ts ++ vs) := by
  generalize hall : ts ++ us = all at h
  induction h generalizing ts with
  | @done position =>
    obtain ⟨rfl, -⟩ := List.append_eq_nil_iff.mp hall
    exact ⟨[], [], rfl, fun rest vs _ hvs => hvs⟩
  | @blank position c cs all hc h ih =>
    obtain ⟨front, back, rfl, hcut⟩ := ih hall
    refine ⟨c :: front, back, rfl, fun rest vs hrest hvs => .blank hc (hcut rest vs hrest ?_)⟩
    rwa [List.length_cons, Nat.add_comm front.length, ← Nat.add_assoc] at hvs
  | @lexeme position kind text after all hlex h ih =>
    cases ts with
    | nil => exact ⟨[], text ++ after, rfl, fun rest vs _ hvs => hvs⟩
    | cons t ts =>
      rw [List.cons_append] at hall
      obtain ⟨rfl, hmore⟩ := List.cons_eq_cons.mp hall
      obtain ⟨front, back, rfl, hcut⟩ := ih hmore
      refine ⟨text ++ front, back, (List.append_assoc ..).symm, fun rest vs hrest hvs => ?_⟩
      rw [List.length_append, ← Nat.add_assoc] at hvs
      rw [List.append_assoc]
      refine .lexeme ?_ (hcut rest vs hrest hvs)
      cases front with
      | nil => exact hlex.of_endsNumber hrest
      | cons c front => exact hlex.of_head?_eq rfl

/-- The end of a text is none of its lexemes. -/
theorem Lexeme.ne_stop (h : Lexeme kind text rest) : kind ≠ .stop := by
  cases h with
  | symbol hc =>
    rintro rfl
    unfold symbolKind? at hc
    split at hc <;> simp at hc
  | ident | number => simp

theorem Spelled.ne_stop (h : Spelled ts) : ∀ t ∈ ts, t.kind ≠ .stop := by
  intro t ht
  obtain ⟨rest, hlex⟩ := h t ht
  exact hlex.ne_stop

/-- Lexemes can be written anywhere, each behind a blank. -/
theorem Spelled.exists_tokenizes (hts : Spelled ts) (position : Nat) :
    ∃ cs us, endsNumber cs = true ∧ Tokenizes position cs us ∧
      us.map written = ts.map written := by
  induction ts generalizing position with
  | nil => exact ⟨[], [], rfl, .done, rfl⟩
  | cons t ts ih =>
    obtain ⟨rest, hlex⟩ := hts t List.mem_cons_self
    obtain ⟨cs, us, hcs, hus, hwritten⟩ := ih hts.tail (position + 1 + t.text.toList.length)
    refine ⟨' ' :: (t.text.toList ++ cs), _, rfl,
      .blank (by decide) (.lexeme (hlex.of_endsNumber hcs) hus), ?_⟩
    rw [List.map_cons, List.map_cons, hwritten, written, written, String.ofList_toList]

/-- Tokens lie within their text. -/
theorem Tokenizes.position_le (h : Tokenizes position cs ts) :
    ∀ t ∈ ts, t.position ≤ position + cs.length := by
  induction h with
  | done => exact nofun
  | blank _ _ ih =>
    intro t ht
    have := ih t ht
    rw [List.length_cons]
    omega
  | lexeme _ _ ih =>
    intro t ht
    rw [List.length_append]
    rcases List.mem_cons.mp ht with rfl | ht
    · exact Nat.le_add_right _ _
    · have := ih t ht
      omega

end Token

namespace Formula

open Token (written)

variable {level : Level} {ts us : List Token} {t : Token} {f : Formula}

/-! ## Where tokens stand does not matter -/

/-- Tokens that are written as a phrase are one. -/
theorem Derives.of_written (h : Derives level ts f) (hus : us.map written = ts.map written) :
    ∃ g, Derives level us g := by
  induction h generalizing us with
  | disjunct _ ih => exact (ih hus).imp fun _ => .disjunct
  | @or ts₁ ts₂ f g op _ hop _ ihf ihg =>
    rw [List.map_append, List.map_cons] at hus
    obtain ⟨us₁, us', rfl, h₁, hus'⟩ := List.map_eq_append_iff.mp hus
    obtain ⟨u, us₂, rfl, hu, h₂⟩ := List.map_eq_cons_iff.mp hus'
    obtain ⟨f', hf'⟩ := ihf h₁
    obtain ⟨g', hg'⟩ := ihg h₂
    exact ⟨_, hf'.or ((congrArg Prod.fst hu).trans hop) hg'⟩
  | conjunct _ ih => exact (ih hus).imp fun _ => .conjunct
  | @and ts₁ ts₂ f g op _ hop _ ihf ihg =>
    rw [List.map_append, List.map_cons] at hus
    obtain ⟨us₁, us', rfl, h₁, hus'⟩ := List.map_eq_append_iff.mp hus
    obtain ⟨u, us₂, rfl, hu, h₂⟩ := List.map_eq_cons_iff.mp hus'
    obtain ⟨f', hf'⟩ := ihf h₁
    obtain ⟨g', hg'⟩ := ihg h₂
    exact ⟨_, hf'.and ((congrArg Prod.fst hu).trans hop) hg'⟩
  | not hop _ ih =>
    obtain ⟨u, us, rfl, hu, hus⟩ := List.map_eq_cons_iff.mp hus
    obtain ⟨f', hf'⟩ := ih hus
    exact ⟨_, .not ((congrArg Prod.fst hu).trans hop) hf'⟩
  | operand _ ih => exact (ih hus).imp fun _ => .operand
  | name ht =>
    obtain ⟨u, us, rfl, hu, hus⟩ := List.map_eq_cons_iff.mp hus
    obtain rfl := List.map_eq_nil_iff.mp hus
    exact ⟨_, .name ((congrArg Prod.fst hu).trans ht)⟩
  | number ht hvalue =>
    obtain ⟨u, us, rfl, hu, hus⟩ := List.map_eq_cons_iff.mp hus
    obtain rfl := List.map_eq_nil_iff.mp hus
    have htext : u.text = _ := congrArg Prod.snd hu
    exact ⟨_, .number ((congrArg Prod.fst hu).trans ht) (by rwa [htext])⟩
  | @parentheses ts f opening closing hopening _ hclosing ih =>
    rw [List.map_cons, List.map_append, List.map_cons, List.map_nil] at hus
    obtain ⟨u, us', rfl, hu, hus'⟩ := List.map_eq_cons_iff.mp hus
    obtain ⟨us, us'', rfl, hinner, hus''⟩ := List.map_eq_append_iff.mp hus'
    obtain ⟨v, vs, rfl, hv, hvs⟩ := List.map_eq_cons_iff.mp hus''
    obtain rfl := List.map_eq_nil_iff.mp hvs
    obtain ⟨f', hf'⟩ := ih hinner
    exact ⟨_, .parentheses ((congrArg Prod.fst hu).trans hopening) hf'
      ((congrArg Prod.fst hv).trans hclosing)⟩

/-! ## Stands -/

/-- Where a reader stands that goes from left to right: whether an operand has just been completed,
and how many parentheses are open. -/
structure Stand where
  complete : Bool
  opened : Nat
  deriving DecidableEq

namespace Stand

/-- The stand behind a token, unless the token is out of place.  The end of the text is in place
behind a complete operand with no parenthesis open. -/
def next? (s : Stand) (t : Token) : Option Stand :=
  match t.kind, s.complete, s.opened with
  | .ident, false, d => some ⟨true, d⟩
  | .number, false, d => if (literalValue t.text).isDegree then some ⟨true, d⟩ else none
  | .not, false, d => some ⟨false, d⟩
  | .leftParen, false, d => some ⟨false, d + 1⟩
  | .and, true, d | .or, true, d => some ⟨false, d⟩
  | .rightParen, true, d + 1 => some ⟨true, d⟩
  | .stop, true, 0 => some ⟨true, 0⟩
  | _, _, _ => none

/-- The stand behind tokens, unless one of them is out of place. -/
def walk? (s : Stand) (ts : List Token) : Option Stand := ts.foldlM next? s

variable {s : Stand}

@[simp] theorem walk?_nil : s.walk? [] = some s := rfl

@[simp] theorem walk?_cons : s.walk? (t :: ts) = (s.next? t).bind (·.walk? ts) := List.foldlM_cons

@[simp] theorem walk?_append : s.walk? (ts ++ us) = (s.walk? ts).bind (·.walk? us) :=
  List.foldlM_append

/-- Stands do not depend on places. -/
theorem next?_of_written {u : Token} (h : u.written = t.written) : s.next? u = s.next? t := by
  have hkind : u.kind = t.kind := congrArg Prod.fst h
  have htext : u.text = t.text := congrArg Prod.snd h
  rw [next?, next?, hkind, htext]

theorem walk?_of_written (h : us.map written = ts.map written) : s.walk? us = s.walk? ts := by
  induction ts generalizing us s with
  | nil => rw [List.map_eq_nil_iff.mp h]
  | cons t ts ih =>
    obtain ⟨u, us, rfl, hu, hus⟩ := List.map_eq_cons_iff.mp h
    rw [walk?_cons, walk?_cons, next?_of_written hu]
    exact congrArg _ (funext fun s => ih hus)

/-- Behind a token as many more parentheses are open as it opens, and fewer as it closes. -/
theorem opened_next? {s' : Stand} (h : s.next? t = some s') :
    s'.opened + [t].countP (·.kind = .rightParen) =
      s.opened + [t].countP (·.kind = .leftParen) := by
  obtain ⟨complete, opened⟩ := s
  simp only [List.countP_singleton, decide_eq_true_eq]
  unfold next? at h
  split at h
  case h_2 hkind _ =>
    split at h
    case isTrue =>
      obtain rfl := Option.some.inj h
      rw [hkind]
      rfl
    case isFalse => exact nomatch h
  case h_9 => exact nomatch h
  all_goals
    obtain rfl := Option.some.inj h
    simp_all

theorem opened_walk? {s' : Stand} (h : s.walk? ts = some s') :
    s'.opened + ts.countP (·.kind = .rightParen) = s.opened + ts.countP (·.kind = .leftParen) := by
  induction ts generalizing s with
  | nil =>
    obtain rfl := Option.some.inj h
    rfl
  | cons t ts ih =>
    rw [walk?_cons, Option.bind_eq_some_iff] at h
    obtain ⟨s₁, h₁, h⟩ := h
    have hnext := opened_next? h₁
    have hwalk := ih h
    rw [← List.singleton_append, List.countP_append, List.countP_append]
    omega

/-- Up to no token are more parentheses closed than opened or open at first. -/
theorem closed_le {s' : Stand} (h : s.walk? ts = some s') (hus : us <+: ts) :
    us.countP (·.kind = .rightParen) ≤ s.opened + us.countP (·.kind = .leftParen) := by
  obtain ⟨vs, rfl⟩ := hus
  rw [walk?_append, Option.bind_eq_some_iff] at h
  obtain ⟨s₁, hs₁, -⟩ := h
  have := opened_walk? hs₁
  omega

end Stand

open Stand

/-- **Over a phrase a reader gets to a complete operand**, with as many parentheses open. -/
theorem Derives.walk? (h : Derives level ts f) (d : Nat) :
    (⟨false, d⟩ : Stand).walk? ts = some ⟨true, d⟩ := by
  induction h generalizing d with
  | disjunct _ ih | conjunct _ ih | operand _ ih => exact ih d
  | or _ hop _ ihf ihg | and _ hop _ ihf ihg =>
    rw [walk?_append, ihf, Option.bind_some, walk?_cons]
    simp only [next?, hop, Option.bind_some]
    exact ihg d
  | not hop _ ih =>
    rw [walk?_cons]
    simp only [next?, hop, Option.bind_some]
    exact ih d
  | name ht => simp [next?, ht]
  | number ht hvalue => simp [next?, ht, (literalValue_of_isDegreeNumeral hvalue).1,
      (literalValue_of_isDegreeNumeral hvalue).2]
  | parentheses hopening _ hclosing ih =>
    rw [walk?_cons]
    simp only [next?, hopening, Option.bind_some]
    rw [walk?_append, ih, Option.bind_some, walk?_cons]
    simp [next?, hclosing]

/-- **Tokens that a reader cannot get over begin no formula**, wherever they stand and whatever
follows, the end of the text included. -/
theorem Derives.not_begins {ending : Token} (h : Derives level ts f) (hending : ending.kind = .stop)
    (hus : (⟨false, 0⟩ : Stand).walk? us = none) :
    ¬ us.map written <+: (ts ++ [ending]).map written := by
  rintro ⟨more, hmore⟩
  obtain ⟨us', more', hsplit, hus', -⟩ := List.map_eq_append_iff.mp hmore.symm
  have hall : (⟨false, 0⟩ : Stand).walk? (ts ++ [ending]) = some ⟨true, 0⟩ := by
    rw [walk?_append, h.walk?]
    simp [next?, hending]
  rw [hsplit, walk?_append, walk?_of_written hus', hus] at hall
  exact nomatch hall

/-- A parenthesis that is open at the end of tokens: behind it none is closed that has not been
opened behind it. -/
def StillOpen (opening : Token) (ts : List Token) : Prop :=
  opening.kind = .leftParen ∧ ∃ before after, ts = before ++ opening :: after ∧
    ∀ us, us <+: after → us.countP (·.kind = .rightParen) ≤ us.countP (·.kind = .leftParen)

theorem StillOpen.append {opening : Token} (h : StillOpen opening us) :
    StillOpen opening (ts ++ us) := by
  obtain ⟨hopening, before, after, rfl, hafter⟩ := h
  exact ⟨hopening, ts ++ before, after, (List.append_assoc ..).symm, hafter⟩

/-- A parenthesis before a phrase is open behind it. -/
theorem Derives.stillOpen {opening : Token} (h : Derives level ts f)
    (hopening : opening.kind = .leftParen) : StillOpen opening (opening :: ts) := by
  refine ⟨hopening, [], ts, rfl, fun us hus => ?_⟩
  simpa only [Nat.zero_add] using closed_le (h.walk? 0) hus

end Formula

end FuzzyLogic
