import FuzzyLogic.Proofs.Formula.Cursor
import FuzzyLogic.Proofs.Formula.Misfit

/-!
# Proofs/Formula/Progress — the walk along the tokens makes progress and ends

A walk that has taken the first tokens of a list `Stands` before those left.  From there every reader
of the walk comes to what the reader of the tokens left comes to (`Matches`): to the same refusal, or
to the same formula before the same tokens.  The readers call each other at a smaller depth, so that
one induction on the depth gives this for all of them (`follows`), their loops being one loop
(`joins_matches`); a depth of four for each token left is enough.

What happens on the way is `Sound`: readers are entered within the list, the end of the text is not
taken, and a reader that returns has gone on, to a token within the list that it cannot go on with.
-/

namespace FuzzyLogic

namespace Formula

/-! ## What may happen -/

/-- The operators that a reader of a level goes on with. -/
def Level.operators : Level → List TokenKind
  | .disjunction => [.or, .and]
  | .conjunction => [.and]
  | .negation | .primary => []

/-- What may happen on a walk along some tokens. -/
def Event.Sound (tokens : List Token) : Event → Prop
  | .enters _ index => index < tokens.length
  | .returns level start finish =>
    start < finish ∧ ∃ t, tokens[finish]? = some t ∧ t.kind ∉ level.operators
  | .takes index t => tokens[index]? = some t ∧ t.kind ≠ .stop ∧ index + 1 < tokens.length

/-- The index is within the tokens, and so is everything that has happened. -/
structure Trail.Sound (tokens : List Token) (s : Trail) : Prop where
  index_lt : s.index < tokens.length
  events : ∀ e ∈ s.events, e.Sound tokens

/-- The walk has taken some tokens, and others are left before the end of the text. -/
structure Stands (tokens : List Token) (length : Nat) (taken left : List Token) (s : Trail) : Prop where
  split : tokens = taken ++ left ++ [Token.stop length]
  ne_stop : ∀ t ∈ left, t.kind ≠ .stop
  index : s.index = taken.length
  events : ∀ e ∈ s.events, e.Sound tokens

/-- The walk comes to what a reader of the tokens left comes to. -/
def Matches (tokens : List Token) (length : Nat) (taken : List Token) {ts : List Token} :
    Except Refusal (Parsed ts) → Except Halt Formula × Trail → Prop
  | .error r, outcome => ∃ s, outcome = (.error (.refused r), s) ∧ s.Sound tokens
  | .ok p, outcome => ∃ used s, outcome = (.ok p.formula, s) ∧ ts = used ++ p.rest ∧
      Stands tokens length (taken ++ used) p.rest s

variable {tokens taken left used ts us after : List Token} {length depth : Nat} {s s' : Trail}
  {t op : Token} {level : Level} {f : Formula} {w : Walk Formula}

open Walk

/-- What a parenthesis is told that is not closed. -/
def unclosed (opening : Token) : List Token → Refusal
  | [] => refuse .unclosed opening
  | t :: _ =>
    if t.kind.startsOperand then refuse (.missingOperator t) t else refuse (.expectedClose t) t

namespace Stands

theorem getElem?_front (h : Stands tokens length taken left s) :
    tokens[taken.length]? = some (front length left) := by
  rw [h.split, List.append_assoc, List.getElem?_append_right le_rfl, Nat.sub_self]
  cases left <;> rfl

theorem index_lt (h : Stands tokens length taken left s) : taken.length < tokens.length :=
  (List.getElem?_eq_some_iff.mp h.getElem?_front).1

theorem sound (h : Stands tokens length taken left s) : s.Sound tokens :=
  ⟨h.index ▸ h.index_lt, h.events⟩

/-- The same place, with one more event. -/
theorem log (h : Stands tokens length taken left s) {e : Event} (he : e.Sound tokens) :
    Stands tokens length taken left { s with events := s.events ++ [e] } := by
  refine ⟨h.split, h.ne_stop, h.index, fun e' he' => ?_⟩
  rcases List.mem_append.mp he' with he' | he'
  · exact h.events e' he'
  · exact List.mem_singleton.mp he' ▸ he

theorem go_peek (h : Stands tokens length taken left s) :
    go (peek tokens) s = (.ok (front length left), s) := by
  change go (at? tokens s.index) s = _
  rw [at?, h.index, h.getElem?_front]
  rfl

theorem go_peek_cons (h : Stands tokens length taken (t :: left) s) :
    go (peek tokens) s = (.ok t, s) := h.go_peek

theorem go_enter (h : Stands tokens length taken left s) (level : Level) :
    ∃ s', go (enter level) s = (.ok taken.length, s') ∧ Stands tokens length taken left s' := by
  refine ⟨{ s with events := s.events ++ [.enters level taken.length] }, ?_, h.log h.index_lt⟩
  rw [← h.index]
  rfl

/-- A token that is not the end is taken. -/
theorem go_advance (h : Stands tokens length taken (t :: left) s) :
    ∃ s', go (advance tokens) s = (.ok t, s') ∧ Stands tokens length (taken ++ [t]) left s' := by
  have ht : t.kind ≠ .stop := h.ne_stop t List.mem_cons_self
  have hsplit : tokens = taken ++ [t] ++ left ++ [Token.stop length] := by
    rw [h.split, List.append_cons taken]
  have hevent : (Event.takes s.index t).Sound tokens := by
    rw [h.index]
    refine ⟨h.getElem?_front, ht, ?_⟩
    rw [hsplit]
    simp only [List.length_append, List.length_singleton]
    omega
  refine ⟨{ s with index := s.index + 1, events := s.events ++ [.takes s.index t] }, ?_, hsplit,
    fun u hu => h.ne_stop u (List.mem_cons_of_mem t hu), ?_, (h.log hevent).events⟩
  · rw [advance, go_bind_of_ok h.go_peek]
    change go (if t.kind ≠ .stop then _ else _) _ = _
    rw [if_pos ht]
    rfl
  · rw [List.length_append, List.length_singleton, h.index]

theorem go_previous? (h : Stands tokens length taken left s) :
    go (previous? tokens) s = (.ok taken.getLast?, s) := by
  change go (if 0 < s.index then _ else _) s = _
  rw [h.index]
  rcases List.eq_nil_or_concat' taken with rfl | ⟨before, t, rfl⟩
  · rfl
  · have hat : tokens[(before ++ [t]).length - 1]? = some t := by
      rw [h.split]
      simp
    rw [if_pos (by simp), at?, hat, List.getLast?_concat]
    rfl

/-- A reader returns that has taken something and cannot go on. -/
theorem go_leave (h : Stands tokens length (taken ++ used) left s) (hused : used ≠ [])
    (hfront : (front length left).kind ∉ level.operators) (f : Formula) :
    ∃ s', go (leave level taken.length f) s = (.ok f, s') ∧
      Stands tokens length (taken ++ used) left s' := by
  have hlt : taken.length < s.index := by
    rw [h.index, List.length_append]
    exact Nat.lt_add_of_pos_right (List.length_pos_of_ne_nil hused)
  have hevent : (Event.returns level taken.length s.index).Sound tokens :=
    ⟨hlt, _, h.index ▸ h.getElem?_front, hfront⟩
  exact ⟨_, rfl, h.log hevent⟩

/-- A negation or a primary returns wherever it has come to. -/
theorem go_leave_operand (h : Stands tokens length (taken ++ t :: used) left s) (level : Level)
    (hlevel : level.operators = []) (f : Formula) :
    ∃ s', go (leave level taken.length f) s = (.ok f, s') ∧
      Stands tokens length (taken ++ t :: used) left s' :=
  h.go_leave (List.cons_ne_nil t used) (hlevel ▸ List.not_mem_nil) f

/-- A closing parenthesis is gone over, and completes the primary. -/
theorem go_close {opening closing : Token}
    (hs : Stands tokens length (taken ++ opening :: used) (closing :: after) s)
    (hclosing : closing.kind = .rightParen) (f : Formula) :
    ∃ s', go (close tokens opening taken.length f) s = (.ok f, s') ∧
      Stands tokens length (taken ++ (opening :: used ++ [closing])) after s' := by
  obtain ⟨s₁, hadvance, hs₁⟩ := hs.go_advance
  rw [List.append_assoc] at hs₁
  obtain ⟨s₂, hleave, hs₂⟩ := hs₁.go_leave_operand .primary rfl f
  refine ⟨s₂, ?_, hs₂⟩
  rw [close, go_bind_of_ok hs.go_peek_cons, if_pos hclosing, go_bind_of_ok hadvance, hleave]

/-- Anything else behind the formula is refused. -/
theorem go_close_of_ne {opening : Token} (hs : Stands tokens length taken left s)
    (hclosing : (front length left).kind ≠ .rightParen) (start : Nat) (f : Formula) :
    go (close tokens opening start f) s = (.error (.refused (unclosed opening left)), s) := by
  rw [close, go_bind_of_ok hs.go_peek, if_neg hclosing]
  cases left with
  | nil => rfl
  | cons t left =>
    have hstop : (front length (t :: left)).kind ≠ .stop := hs.ne_stop t List.mem_cons_self
    rw [if_neg hstop, unclosed]
    change go (if t.kind.startsOperand then _ else _) s = _
    split_ifs <;> rfl

/-! ### Operands -/

theorem go_primary_name (hs : Stands tokens length taken (t :: left) s) (ht : t.kind = .ident)
    (depth : Nat) : ∃ s', Stands tokens length (taken ++ [t]) left s' ∧
      go (Walk.primary tokens (depth + 1)) s =
        go (leave .primary taken.length (.name t.text t.position)) s' := by
  obtain ⟨s₁, henter, hs₁⟩ := hs.go_enter .primary
  obtain ⟨s₂, hadvance, hs₂⟩ := hs₁.go_advance
  refine ⟨s₂, hs₂, ?_⟩
  rw [Walk.primary, go_bind_of_ok henter, go_bind_of_ok hs₁.go_peek_cons]
  simp only [ht]
  rw [go_bind_of_ok hadvance]

theorem go_primary_number (hs : Stands tokens length taken (t :: left) s) (ht : t.kind = .number)
    (depth : Nat) : ∃ s', Stands tokens length (taken ++ [t]) left s' ∧
      go (Walk.primary tokens (depth + 1)) s =
        go (Walk.literal t >>= leave .primary taken.length) s' := by
  obtain ⟨s₁, henter, hs₁⟩ := hs.go_enter .primary
  obtain ⟨s₂, hadvance, hs₂⟩ := hs₁.go_advance
  refine ⟨s₂, hs₂, ?_⟩
  rw [Walk.primary, go_bind_of_ok henter, go_bind_of_ok hs₁.go_peek_cons]
  simp only [ht]
  rw [go_bind_of_ok hadvance]

theorem go_primary_leftParen (hs : Stands tokens length taken (t :: left) s)
    (ht : t.kind = .leftParen) (depth : Nat) :
    ∃ s', Stands tokens length (taken ++ [t]) left s' ∧
      go (Walk.primary tokens (depth + 1)) s =
        go (if (front length left).kind = .rightParen then Walk.refuse .emptyParentheses t
          else Walk.disjunction tokens depth >>= close tokens t taken.length) s' := by
  obtain ⟨s₁, henter, hs₁⟩ := hs.go_enter .primary
  obtain ⟨s₂, hadvance, hs₂⟩ := hs₁.go_advance
  refine ⟨s₂, hs₂, ?_⟩
  rw [Walk.primary, go_bind_of_ok henter, go_bind_of_ok hs₁.go_peek_cons]
  simp only [ht]
  rw [go_bind_of_ok hadvance, go_bind_of_ok hs₂.go_peek]

/-- Where no operand begins the walk is told what is wrong. -/
theorem go_primary_other (hs : Stands tokens length taken left s)
    (hident : (front length left).kind ≠ .ident) (hnumber : (front length left).kind ≠ .number)
    (hparen : (front length left).kind ≠ .leftParen) (depth : Nat) :
    ∃ s', go (Walk.primary tokens (depth + 1)) s =
      (.error (.refused (diagnose taken.getLast? (front length left))), s') ∧ s'.Sound tokens := by
  obtain ⟨s₁, henter, hs₁⟩ := hs.go_enter .primary
  refine ⟨s₁, ?_, hs₁.sound⟩
  rw [Walk.primary, go_bind_of_ok henter, go_bind_of_ok hs₁.go_peek]
  split
  case h_1 h => exact absurd h hident
  case h_2 h => exact absurd h hnumber
  case h_3 h => exact absurd h hparen
  case h_4 => rw [go_bind_of_ok hs₁.go_previous?]; rfl

end Stands

/-! ## Matching readers -/

@[simp] theorem kind_front_nil (length : Nat) : (front length []).kind = .stop := rfl

theorem front_ne {kind : TokenKind} (h : Clear kind left) (hkind : kind ≠ .stop) :
    (front length left).kind ≠ kind := by
  cases left with
  | nil => exact hkind.symm
  | cons t left => exact clear_cons.mp h

theorem front_not_mem_disjunction (h : Clear .and left ∧ Clear .or left) :
    (front length left).kind ∉ Level.disjunction.operators := by
  simpa [Level.operators] using ⟨front_ne h.2 (by decide), front_ne h.1 (by decide)⟩

theorem front_not_mem_conjunction (h : Clear .and left) :
    (front length left).kind ∉ Level.conjunction.operators := by
  simpa [Level.operators] using front_ne h (by decide)

namespace Matches

variable {r : Except Refusal (Parsed ts)}

/-- What is matched is refused or read. -/
theorem refused_or_read (h : Matches tokens length taken r (go w s)) :
    (∃ refusal s', r = .error refusal ∧ go w s = (.error (.refused refusal), s') ∧
        s'.Sound tokens) ∨
      ∃ p used s', r = .ok p ∧ go w s = (.ok p.formula, s') ∧ ts = used ++ p.rest ∧
        Stands tokens length (taken ++ used) p.rest s' := by
  rcases r with r | p
  · obtain ⟨s', hgo, hsound⟩ := h
    exact .inl ⟨r, s', rfl, hgo, hsound⟩
  · obtain ⟨used, s', hgo, hsplit, hs'⟩ := h
    exact .inr ⟨p, used, s', rfl, hgo, hsplit, hs'⟩

/-- Readers in sequence are matched one after the other. -/
theorem bind {taken' : List Token} {next : Parsed ts → Except Refusal (Parsed us)}
    {then' : Formula → Walk Formula} (h : Matches tokens length taken r (go w s))
    (hnext : ∀ p used s', r = .ok p → ts = used ++ p.rest →
      Stands tokens length (taken ++ used) p.rest s' →
      Matches tokens length taken' (next p) (go (then' p.formula) s')) :
    Matches tokens length taken' (r >>= next) (go (w >>= then') s) := by
  rcases r with r | p
  · obtain ⟨s', hgo, hsound⟩ := h
    exact ⟨s', go_bind_of_error hgo, hsound⟩
  · obtain ⟨used, s', hgo, hsplit, hs'⟩ := h
    rw [go_bind_of_ok hgo]
    exact hnext p used s' rfl hsplit hs'

/-- A reader returns with what it has read, and cannot go on. -/
theorem leave (h : Matches tokens length taken r (go w s))
    (hfront : ∀ p, r = .ok p → (front length p.rest).kind ∉ level.operators) :
    Matches tokens length taken r (go (w >>= Walk.leave level taken.length) s) := by
  rcases r with r | p
  · obtain ⟨s', hgo, hsound⟩ := h
    exact ⟨s', go_bind_of_error hgo, hsound⟩
  · obtain ⟨used, s', hgo, hsplit, hs'⟩ := h
    have hused : used ≠ [] := by
      rintro rfl
      exact absurd p.rest_shorter (Nat.not_lt.mpr (congrArg List.length hsplit).le)
    obtain ⟨s'', hleave, hs''⟩ := hs'.go_leave hused (hfront p rfl) p.formula
    exact ⟨used, s'', (go_bind_of_ok hgo).trans hleave, hsplit, hs''⟩

end Matches

/-- **The loop of the walk matches a loop of the readers**, if the operands are matched and there are
more rounds than tokens left.  What the loop of the readers does is said by `hclear` and `hmore`. -/
theorem joins_matches {kind : TokenKind} {combine : Formula → Formula → Formula} {operand : Walk Formula}
    {read : Option Token → (us : List Token) → Except Refusal (Parsed us)}
    {more : Parsed ts → Except Refusal (Parsed ts)} (hkind : kind ≠ .stop)
    (hclear : ∀ {left : Parsed ts}, Clear kind left.rest → more left = .ok left)
    (hmore : ∀ {left : Parsed ts} {op : Token} {after : List Token}
      (hrest : left.rest = op :: after), op.kind = kind →
      more left = read (some op) after >>= fun right => more (left.join combine hrest right))
    (hoperand : ∀ {taken us : List Token} {s : Trail}, us.length < ts.length →
      Stands tokens length taken us s →
      Matches tokens length taken (read taken.getLast? us) (go operand s))
    {rounds : Nat} {left : Parsed ts} (hts : ts = used ++ left.rest)
    (hs : Stands tokens length (taken ++ used) left.rest s) (hrounds : left.rest.length < rounds) :
    Matches tokens length taken (more left)
      (go (joins tokens kind combine operand rounds left.formula) s) := by
  induction rounds generalizing left used s with
  | zero => cases hrounds
  | succ rounds ih =>
    rw [joins, go_bind_of_ok hs.go_peek]
    by_cases hfront : Clear kind left.rest
    · rw [hclear hfront, if_neg (front_ne hfront hkind)]
      exact ⟨used, s, rfl, hts, hs⟩
    · obtain ⟨op, after, hrest, hop⟩ := exists_of_not_clear hfront
      have hkind : (front length left.rest).kind = kind := hrest ▸ hop
      have hshorter := left.rest_shorter
      have hlength : left.rest.length = after.length + 1 := by rw [hrest, List.length_cons]
      rw [hrest] at hs
      obtain ⟨s₁, hadvance, hs₁⟩ := hs.go_advance
      have hright := hoperand (by omega) hs₁
      rw [List.getLast?_concat] at hright
      rw [hmore hrest hop, if_pos hkind, go_bind_of_ok hadvance]
      refine hright.bind fun right used' s₂ _ hsplit hs₂ => ?_
      have hlt : (left.join combine hrest right).rest.length < left.rest.length :=
        left.join_shorter hrest right
      have hjoined := Parsed.join_split hts hrest hsplit
      have hstands : Stands tokens length (taken ++ (used ++ op :: used')) right.rest s₂ := by
        simpa using hs₂
      exact ih hjoined hstands (by omega)

/-- Every reader of the walk matches the reader of the tokens left, if the depth is more than four
for each of these tokens. -/
structure Follows (tokens : List Token) (length depth : Nat) : Prop where
  disjunction {taken ts : List Token} {s : Trail} : Stands tokens length taken ts s →
    4 * ts.length + 3 < depth →
    Matches tokens length taken (readDisjunction length taken.getLast? ts)
      (go (Walk.disjunction tokens depth) s)
  conjunction {taken ts : List Token} {s : Trail} : Stands tokens length taken ts s →
    4 * ts.length + 2 < depth →
    Matches tokens length taken (readConjunction length taken.getLast? ts)
      (go (Walk.conjunction tokens depth) s)
  negation {taken ts : List Token} {s : Trail} : Stands tokens length taken ts s →
    4 * ts.length + 1 < depth →
    Matches tokens length taken (readNegation length taken.getLast? ts)
      (go (Walk.negation tokens depth) s)
  primary {taken after : List Token} {t : Token} {s : Trail} :
    Stands tokens length taken (t :: after) s → 4 * (after.length + 1) < depth →
    Matches tokens length taken (readPrimary length taken.getLast? t after)
      (go (Walk.primary tokens depth) s)

namespace Follows

theorem disjunction_succ (ih : Follows tokens length depth) (hs : Stands tokens length taken ts s)
    (hdepth : 4 * ts.length + 3 < depth + 1) :
    Matches tokens length taken (readDisjunction length taken.getLast? ts)
      (go (Walk.disjunction tokens (depth + 1)) s) := by
  obtain ⟨s₁, henter, hs₁⟩ := hs.go_enter .disjunction
  rw [readDisjunction_eq, Walk.disjunction, go_bind_of_ok henter]
  refine (ih.conjunction hs₁ (by omega)).bind fun left used s₂ hleft hsplit hs₂ => ?_
  have hlt := left.rest_shorter
  have hjoins := joins_matches (by decide) moreDisjuncts_clear moreDisjuncts_or
    (fun hus hs => ih.conjunction hs (by omega)) hsplit hs₂ (by omega : _ < depth)
  refine hjoins.leave fun p hp => ?_
  exact front_not_mem_disjunction (moreDisjuncts_leaves (readConjunction_leaves hleft) hp)

theorem conjunction_succ (ih : Follows tokens length depth) (hs : Stands tokens length taken ts s)
    (hdepth : 4 * ts.length + 2 < depth + 1) :
    Matches tokens length taken (readConjunction length taken.getLast? ts)
      (go (Walk.conjunction tokens (depth + 1)) s) := by
  obtain ⟨s₁, henter, hs₁⟩ := hs.go_enter .conjunction
  rw [readConjunction_eq, Walk.conjunction, go_bind_of_ok henter]
  refine (ih.negation hs₁ (by omega)).bind fun left used s₂ _ hsplit hs₂ => ?_
  have hlt := left.rest_shorter
  have hjoins := joins_matches (by decide) moreConjuncts_clear moreConjuncts_and
    (fun hus hs => ih.negation hs (by omega)) hsplit hs₂ (by omega : _ < depth)
  exact hjoins.leave fun p hp => front_not_mem_conjunction (moreConjuncts_leaves hp)

theorem negation_succ (ih : Follows tokens length depth) (hs : Stands tokens length taken ts s)
    (hdepth : 4 * ts.length + 1 < depth + 1) :
    Matches tokens length taken (readNegation length taken.getLast? ts)
      (go (Walk.negation tokens (depth + 1)) s) := by
  obtain ⟨s₁, henter, hs₁⟩ := hs.go_enter .negation
  rw [Walk.negation, go_bind_of_ok henter, go_bind_of_ok hs₁.go_peek]
  cases ts with
  | nil =>
    obtain ⟨depth, rfl⟩ : ∃ d, depth = d + 1 := ⟨depth - 1, by omega⟩
    obtain ⟨s₂, hgo, hsound⟩ := hs₁.go_primary_other (by simp) (by simp) (by simp) depth
    rw [readNegation, if_neg (by simp)]
    exact ⟨s₂, go_bind_of_error hgo, hsound⟩
  | cons t after =>
    rw [List.length_cons] at hdepth
    by_cases ht : t.kind = .not
    · obtain ⟨s₂, hadvance, hs₂⟩ := hs₁.go_advance
      have hoperand := ih.negation hs₂ (by omega)
      rw [List.getLast?_concat] at hoperand
      rw [readNegation_not ht, if_pos (show (front length (t :: after)).kind = .not from ht),
        go_bind_of_ok hadvance]
      rcases hoperand.refused_or_read with
        ⟨r, s₃, hread, hgo, hsound⟩ | ⟨inner, used, s₃, hread, hgo, hsplit, hs₃⟩
      · rw [hread]
        exact ⟨s₃, go_bind_of_error hgo, hsound⟩
      · rw [hread]
        have hstands : Stands tokens length (taken ++ t :: used) inner.rest s₃ := by
          simpa using hs₃
        obtain ⟨s₄, hleave, hs₄⟩ := hstands.go_leave_operand .negation rfl (.negation inner.formula)
        exact ⟨t :: used, s₄, (go_bind_of_ok hgo).trans hleave, congrArg (t :: ·) hsplit, hs₄⟩
    · rw [readNegation_operand ht, if_neg (show (front length (t :: after)).kind ≠ .not from ht)]
      exact (ih.primary hs₁ (by omega)).leave fun p _ => List.not_mem_nil

theorem primary_number (hs : Stands tokens length taken (t :: after) s) (ht : t.kind = .number)
    (depth : Nat) : Matches tokens length taken (readPrimary length taken.getLast? t after)
      (go (Walk.primary tokens (depth + 1)) s) := by
  obtain ⟨s₁, hs₁, hgo⟩ := hs.go_primary_number ht depth
  rw [hgo, readPrimary]
  simp only [ht]
  split_ifs with hdegree
  · obtain ⟨s₂, hleave, hs₂⟩ :=
      hs₁.go_leave_operand .primary rfl (.literal (literalValue t.text) t.position)
    refine ⟨[t], s₂, ?_, rfl, hs₂⟩
    rw [Walk.literal, if_pos hdegree, go_bind_of_ok (go_pure _ _), hleave]
  · refine ⟨s₁, ?_, hs₁.sound⟩
    rw [Walk.literal, if_neg hdegree]
    rfl

theorem primary_leftParen (ih : Follows tokens length depth)
    (hs : Stands tokens length taken (t :: after) s) (ht : t.kind = .leftParen)
    (hdepth : 4 * (after.length + 1) < depth + 1) :
    Matches tokens length taken (readPrimary length taken.getLast? t after)
      (go (Walk.primary tokens (depth + 1)) s) := by
  obtain ⟨s₁, hs₁, hgo⟩ := hs.go_primary_leftParen ht depth
  rw [hgo, readPrimary]
  simp only [ht]
  split_ifs with hfront
  · exact ⟨s₁, rfl, hs₁.sound⟩
  have hinner := ih.disjunction hs₁ (by omega)
  rw [List.getLast?_concat] at hinner
  rcases hinner.refused_or_read with
    ⟨r, s₂, hread, hgo, hsound⟩ | ⟨inner, used, s₂, hread, hgo, hsplit, hs₂⟩
  · rw [hread]
    exact ⟨s₂, go_bind_of_error hgo, hsound⟩
  have hstands : Stands tokens length (taken ++ t :: used) inner.rest s₂ := by
    simpa using hs₂
  rw [hread, go_bind_of_ok hgo]
  obtain ⟨f, last, rest, hlt⟩ := inner
  cases rest with
  | nil =>
    exact ⟨s₂, hstands.go_close_of_ne (by simp) _ f, hstands.sound⟩
  | cons closing rest =>
    dsimp only at hstands hsplit ⊢
    split_ifs with hclosing hoperand
    · obtain ⟨s₃, hclose, hs₃⟩ := hstands.go_close hclosing f
      exact ⟨_, s₃, hclose, by simp [hsplit], hs₃⟩
    · refine ⟨s₂, ?_, hstands.sound⟩
      rw [hstands.go_close_of_ne hclosing, unclosed, if_pos hoperand]
    · refine ⟨s₂, ?_, hstands.sound⟩
      rw [hstands.go_close_of_ne hclosing, unclosed, if_neg hoperand]

theorem primary_succ (ih : Follows tokens length depth)
    (hs : Stands tokens length taken (t :: after) s) (hdepth : 4 * (after.length + 1) < depth + 1) :
    Matches tokens length taken (readPrimary length taken.getLast? t after)
      (go (Walk.primary tokens (depth + 1)) s) := by
  by_cases hparen : t.kind = .leftParen
  · exact ih.primary_leftParen hs hparen hdepth
  by_cases hnumber : t.kind = .number
  · exact primary_number hs hnumber depth
  by_cases hident : t.kind = .ident
  · obtain ⟨s₁, hs₁, hgo⟩ := hs.go_primary_name hident depth
    obtain ⟨s₂, hleave, hs₂⟩ := hs₁.go_leave_operand .primary rfl (.name t.text t.position)
    rw [hgo, readPrimary]
    simp only [hident]
    exact ⟨[t], s₂, hleave, rfl, hs₂⟩
  · rw [readPrimary]
    split
    case h_1 h => exact absurd h hident
    case h_2 h => exact absurd h hnumber
    case h_3 h => exact absurd h hparen
    case h_4 => exact hs.go_primary_other hident hnumber hparen depth

end Follows

/-- **The walk follows the readers**, if the depth allows for it. -/
theorem follows (tokens : List Token) (length depth : Nat) : Follows tokens length depth := by
  induction depth with
  | zero => constructor <;> intros <;> contradiction
  | succ depth ih =>
    exact ⟨ih.disjunction_succ, ih.conjunction_succ, ih.negation_succ, ih.primary_succ⟩

/-! ## Whole token lists -/

/-- What a token list is read as is what the walk along it comes to. -/
theorem go_whole (length : Nat) (hts : ∀ t ∈ ts, t.kind ≠ .stop) (hdepth : 4 * ts.length + 3 < depth) :
    ∃ s, go (whole (ts ++ [Token.stop length]) depth) ⟨0, []⟩ =
      ((ofTokens length ts).mapError .refused, s) ∧ s.Sound (ts ++ [Token.stop length]) := by
  have hs : Stands (ts ++ [Token.stop length]) length [] ts ⟨0, []⟩ :=
    ⟨rfl, hts, rfl, List.forall_mem_nil _⟩
  rw [whole, go_bind_of_ok hs.go_peek]
  cases ts with
  | nil => exact ⟨_, rfl, hs.sound⟩
  | cons t ts =>
    have hstop : (front length (t :: ts)).kind ≠ .stop := hts t List.mem_cons_self
    have hwhole := (follows _ length depth).disjunction hs hdepth
    rw [if_neg hstop]
    change Matches _ _ _ (readDisjunction length none (t :: ts)) _ at hwhole
    rw [ofTokens]
    rcases hwhole.refused_or_read with
      ⟨r, s, hread, hgo, hsound⟩ | ⟨p, used, s, hread, hgo, -, hs⟩
    · rw [hread]
      exact ⟨s, go_bind_of_error hgo, hsound⟩
    · rw [hread]
      refine ⟨s, ?_, hs.sound⟩
      obtain ⟨f, last, rest, hlt⟩ := p
      rw [go_bind_of_ok hgo]
      cases rest with
      | nil => exact go_bind_of_ok hs.go_peek
      | cons next rest =>
        rw [go_bind_of_ok hs.go_peek_cons, if_neg (hs.ne_stop next List.mem_cons_self)]
        dsimp only
        split_ifs <;> rfl

/-- **Reading a text makes progress and ends.**  The walk along its tokens comes to the formula that
is read, or to the refusal, at every depth from four for each token on; its index stays within
the tokens, the end of the text is not taken, and every reader that returns has gone on, to a token
that it cannot go on with. -/
theorem reading_makes_progress {source : String} {tokens : List Token}
    (h : tokenize source = .ok tokens) : ∃ (result : Except Refusal Formula) (trail : Trail),
      parse source = result.mapError (⟨source, ·⟩) ∧
      (∀ depth, 4 * tokens.length ≤ depth →
        go (whole tokens depth) ⟨0, []⟩ = (result.mapError .refused, trail)) ∧
      trail.index < tokens.length ∧ ∀ e ∈ trail.events, e.Sound tokens := by
  obtain ⟨ts, hlexemes, rfl⟩ := Outcome.map_eq_ok.mp h
  have hspelled : Token.Spelled ts := (lexemes_eq_ok_iff.mp hlexemes).exists_lexeme
  have hlength : (ts ++ [Token.stop source.length]).length = ts.length + 1 := by simp
  obtain ⟨trail, hgo, hsound⟩ := go_whole source.length hspelled.ne_stop
    (show 4 * ts.length + 3 < 4 * (ts ++ [Token.stop source.length]).length by omega)
  refine ⟨ofTokens source.length ts, trail, ?_, fun depth hdepth => ?_, hsound.index_lt,
    hsound.events⟩
  · rw [parse, hlexemes]
    rfl
  · rw [← hgo]
    refine whole_of_le hdepth _ ?_
    rw [hgo]
    cases ofTokens source.length ts <;> simp [Except.mapError]

/-- The tokens of `!(a|.5)`. -/
def notAOrHalf : List Token :=
  [⟨.not, "!", 0⟩, ⟨.leftParen, "(", 1⟩, ⟨.ident, "a", 2⟩, ⟨.or, "|", 3⟩, ⟨.number, ".5", 4⟩,
    ⟨.rightParen, ")", 6⟩, .stop 7]

/-- The walk along the tokens of `!(a|.5)`, and its trail. -/
theorem reading_makes_progress_not_a_or_half :
    tokenize "!(a|.5)" = .ok notAOrHalf ∧ ∃ result : Except Refusal Formula,
      parse "!(a|.5)" = result.mapError (⟨"!(a|.5)", ·⟩) ∧
      ∀ depth, 28 ≤ depth → go (whole notAOrHalf depth) ⟨0, []⟩ = (result.mapError .refused,
        ⟨6, [.enters .disjunction 0, .enters .conjunction 0, .enters .negation 0,
          .takes 0 ⟨.not, "!", 0⟩, .enters .negation 1, .enters .primary 1,
          .takes 1 ⟨.leftParen, "(", 1⟩, .enters .disjunction 2, .enters .conjunction 2,
          .enters .negation 2, .enters .primary 2, .takes 2 ⟨.ident, "a", 2⟩,
          .returns .primary 2 3, .returns .negation 2 3, .returns .conjunction 2 3,
          .takes 3 ⟨.or, "|", 3⟩, .enters .conjunction 4, .enters .negation 4, .enters .primary 4,
          .takes 4 ⟨.number, ".5", 4⟩, .returns .primary 4 5, .returns .negation 4 5,
          .returns .conjunction 4 5, .returns .disjunction 2 5, .takes 5 ⟨.rightParen, ")", 6⟩,
          .returns .primary 1 6, .returns .negation 1 6, .returns .negation 0 6,
          .returns .conjunction 0 6, .returns .disjunction 0 6]⟩) := by
  have htokens : tokenize "!(a|.5)" = .ok notAOrHalf := by cbv
  obtain ⟨result, trail, hparse, hgo, -⟩ := reading_makes_progress htokens
  refine ⟨htokens, result, hparse, fun depth hdepth => (hgo depth hdepth).trans ?_⟩
  have htrail : (go (whole notAOrHalf 28) ⟨0, []⟩).2 = trail := by rw [hgo 28 le_rfl]
  refine congrArg (Prod.mk _) (htrail.symm.trans ?_)
  decide +kernel

end Formula

end FuzzyLogic
