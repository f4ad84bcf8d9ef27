import FuzzyLogic.Proofs.Formula.Grammar

/-!
# Proofs/Formula/Cursor — reading with an index into the tokens

The readers take tokens off the front of a list.  Here they walk along a list that stays as it is,
the end of the text included, and share an index into it, which `Walk.advance` alone moves.  A walk
leaves a trail: which reader was entered where, from where to where one that returned has gone, and
which tokens were taken (`isReader_reader`).  A look outside the list breaks the walk off.

Nothing in a walk says that it ends.  It is therefore given a **depth**, which bounds how deep its
calls are nested and how often its loops go round, and breaks off when that is used up.  A walk that
does not is the same at any greater depth (`whole_of_le`), so that its end is that of the walk
without bounds.
-/

namespace FuzzyLogic

namespace Formula

/-- What happens on a walk: a reader is entered at an index, returns at another, or the token at an
index is taken. -/
inductive Event
  | enters (level : Level) (index : Nat)
  | returns (level : Level) (start finish : Nat)
  | takes (index : Nat) (t : Token)
  deriving DecidableEq

/-- The index, and what has happened so far. -/
structure Trail where
  index : Nat
  events : List Event
  deriving DecidableEq

/-- Why a walk breaks off: the tokens are refused, there is none at an index, or the depth is used
up. -/
inductive Halt
  | refused (r : Refusal)
  | outOfRange (index : Nat)
  | tooDeep

/-- A walk along the tokens. -/
abbrev Walk (α : Type) : Type := ExceptT Halt (StateM Trail) α

namespace Walk

/-- Puts an event on the trail. -/
def log (e : Event) : Walk Unit := modify fun s => { s with events := s.events ++ [e] }

/-- The token at an index. -/
def at? (tokens : List Token) (index : Nat) : Walk Token :=
  match tokens[index]? with
  | some t => pure t
  | none => throw (.outOfRange index)

/-- The token in front. -/
def peek (tokens : List Token) : Walk Token := do
  at? tokens (← get).index

/-- The token behind. -/
def previous? (tokens : List Token) : Walk (Option Token) := do
  let index := (← get).index
  if 0 < index then return some (← at? tokens (index - 1))
  else return none

/-- Takes the token in front, and goes on unless it is the end. -/
def advance (tokens : List Token) : Walk Token := do
  let t ← peek tokens
  log (.takes (← get).index t)
  if t.kind ≠ .stop then modify fun s => { s with index := s.index + 1 }
  return t

/-- Breaks off with a refusal. -/
def refuse {α : Type} (cause : RefusalCause) (t : Token) : Walk α :=
  throw (.refused (Formula.refuse cause t))

/-- Enters a reader: the index at which that happens. -/
def enter (level : Level) : Walk Nat := do
  let index := (← get).index
  log (.enters level index)
  return index

/-- Returns from a reader. -/
def leave (level : Level) (start : Nat) (f : Formula) : Walk Formula := do
  log (.returns level start (← get).index)
  return f

/-- The literal of a number token. -/
def literal (t : Token) : Walk Formula :=
  let value := literalValue t.text
  if value.isDegree then return .literal value t.position
  else refuse (.notADegree t.text) t

/-- Goes over the parenthesis that closes a formula behind an opening one. -/
def close (tokens : List Token) (opening : Token) (start : Nat) (inner : Formula) :
    Walk Formula := do
  let closing ← peek tokens
  if closing.kind = .rightParen then
    let _ ← advance tokens
    leave .primary start inner
  else if closing.kind = .stop then refuse .unclosed opening
  else if closing.kind.startsOperand then refuse (.missingOperator closing) closing
  else refuse (.expectedClose closing) closing

/-- Joins further operands to a formula while an operator is in front, for a number of rounds at
most. -/
def joins (tokens : List Token) (operator : TokenKind) (combine : Formula → Formula → Formula)
    (operand : Walk Formula) : (rounds : Nat) → Formula → Walk Formula
  | 0, _ => throw .tooDeep
  | rounds + 1, left => do
    let t ← peek tokens
    if t.kind = operator then
      let _ ← advance tokens
      let right ← operand
      joins tokens operator combine operand rounds (combine left right)
    else return left

mutual

/-- Reads conjunctions joined by `|`. -/
def disjunction (tokens : List Token) : (depth : Nat) → Walk Formula
  | 0 => throw .tooDeep
  | depth + 1 => do
    let start ← enter .disjunction
    let left ← conjunction tokens depth
    let joined ← joins tokens .or .disjunction (conjunction tokens depth) depth left
    leave .disjunction start joined

/-- Reads negations joined by `&`. -/
def conjunction (tokens : List Token) : (depth : Nat) → Walk Formula
  | 0 => throw .tooDeep
  | depth + 1 => do
    let start ← enter .conjunction
    let left ← negation tokens depth
    let joined ← joins tokens .and .conjunction (negation tokens depth) depth left
    leave .conjunction start joined

/-- Reads a primary after any number of negations. -/
def negation (tokens : List Token) : (depth : Nat) → Walk Formula
  | 0 => throw .tooDeep
  | depth + 1 => do
    let start ← enter .negation
    let t ← peek tokens
    if t.kind = .not then
      let _ ← advance tokens
      let operand ← negation tokens depth
      leave .negation start (.negation operand)
    else
      let operand ← primary tokens depth
      leave .negation start operand

/-- Reads a name, a number or a formula in parentheses. -/
def primary (tokens : List Token) : (depth : Nat) → Walk Formula
  | 0 => throw .tooDeep
  | depth + 1 => do
    let start ← enter .primary
    let t ← peek tokens
    match t.kind with
    | .ident =>
      let _ ← advance tokens
      leave .primary start (.name t.text t.position)
    | .number =>
      let _ ← advance tokens
      let f ← literal t
      leave .primary start f
    | .leftParen =>
      let _ ← advance tokens
      let next ← peek tokens
      if next.kind = .rightParen then refuse .emptyParentheses t
      else
        let inner ← disjunction tokens depth
        close tokens t start inner
    | _ =>
      let previous ← previous? tokens
      throw (.refused (diagnose previous t))

end

/-- Reads a whole token list. -/
def whole (tokens : List Token) (depth : Nat) : Walk Formula := do
  let t ← peek tokens
  if t.kind = .stop then refuse .empty t
  else
    let f ← disjunction tokens depth
    let next ← peek tokens
    if next.kind = .stop then return f
    else if next.kind = .rightParen then refuse .unmatchedClose next
    else if next.kind.startsOperand then refuse (.missingOperator next) next
    else refuse (.unexpected next) next

/-! ## Where a walk comes to -/

variable {α β : Type} {w w' w'' : Walk α} {next next' : α → Walk β} {s s' : Trail} {a : α}
  {halt : Halt} {tokens : List Token} {depth depth' : Nat}

/-- What a walk comes to from a trail: a value or a halt, and the trail behind it. -/
def go (w : Walk α) (s : Trail) : Except Halt α × Trail := w.run.run s

theorem go_pure (a : α) (s : Trail) : go (pure a) s = (.ok a, s) := rfl

theorem go_bind (w : Walk α) (next : α → Walk β) (s : Trail) :
    go (w >>= next) s = ExceptT.bindCont next (go w s).1 (go w s).2 := rfl

theorem go_bind_of_ok (hw : go w s = (.ok a, s')) : go (w >>= next) s = go (next a) s' := by
  rw [go_bind, hw]
  rfl

theorem go_bind_of_error (hw : go w s = (.error halt, s')) :
    go (w >>= next) s = (.error halt, s') := by
  rw [go_bind, hw]
  rfl

/-! ## What readers leave on the trail -/

variable {level : Level} {start : Nat}

/-- A walk takes nothing off the trail. -/
def Extends (w : Walk α) : Prop := ∀ s, s.events <+: (go w s).2.events

theorem extends_pure (a : α) : Extends (pure a) := fun _ => List.prefix_rfl

theorem extends_throw (halt : Halt) : Extends (throw halt : Walk α) := fun _ => List.prefix_rfl

theorem Extends.bind (hw : Extends w) (hnext : ∀ a, Extends (next a)) : Extends (w >>= next) := by
  intro s
  have hs := hw s
  rcases hgo : go w s with ⟨halt | a, s'⟩
  · rw [go_bind_of_error hgo]
    rwa [hgo] at hs
  · rw [go_bind_of_ok hgo]
    rw [hgo] at hs
    exact hs.trans (hnext a s')

theorem extends_log (e : Event) : Extends (log e) := fun _ => List.prefix_append _ _

theorem extends_at? (tokens : List Token) (index : Nat) : Extends (at? tokens index) := by
  unfold at?
  split
  · exact extends_pure _
  · exact extends_throw _

theorem extends_peek (tokens : List Token) : Extends (peek tokens) :=
  .bind (fun _ => List.prefix_rfl) fun _ => extends_at? tokens _

theorem extends_previous? (tokens : List Token) : Extends (previous? tokens) := by
  refine .bind (fun _ => List.prefix_rfl) fun s => ?_
  dsimp only
  split_ifs
  · exact .bind (extends_at? tokens _) fun _ => extends_pure _
  · exact extends_pure _

theorem extends_advance (tokens : List Token) : Extends (advance tokens) := by
  refine .bind (extends_peek tokens) fun t => .bind (fun _ => List.prefix_rfl) fun s =>
    .bind (extends_log _) fun _ => ?_
  split_ifs
  · exact .bind (fun _ => List.prefix_rfl) fun _ => extends_pure t
  · exact extends_pure t

theorem extends_literal (t : Token) : Extends (literal t) := by
  unfold literal
  dsimp only
  split_ifs
  · exact extends_pure _
  · exact extends_throw _

/-- Where a walk comes to a formula, it returns from a reader last. -/
structure Returns (level : Level) (start : Nat) (w : Walk Formula) : Prop where
  keeps : Extends w
  returns : ∀ {s f s'}, go w s = (.ok f, s') → ∃ events, s.events <+: events ∧
    s'.events = events ++ [.returns level start s'.index]

theorem returns_throw (halt : Halt) : Returns level start (throw halt) :=
  ⟨extends_throw halt, fun h => by cases h⟩

theorem returns_leave (f : Formula) : Returns level start (leave level start f) := by
  refine ⟨.bind (fun _ => List.prefix_rfl) fun _ => .bind (extends_log _) fun _ => extends_pure _,
    fun {s g s'} h => ?_⟩
  obtain rfl : _ = s' := (Prod.mk.inj h).2
  exact ⟨s.events, List.prefix_rfl, rfl⟩

theorem Returns.bind {next : α → Walk Formula} (hw : Extends w)
    (hnext : ∀ a, Returns level start (next a)) : Returns level start (w >>= next) := by
  refine ⟨hw.bind fun a => (hnext a).keeps, fun {s f s'} h => ?_⟩
  have hs := hw s
  rcases hgo : go w s with ⟨halt | a, s₁⟩
  · rw [go_bind_of_error hgo] at h
    cases (Prod.mk.inj h).1
  · rw [go_bind_of_ok hgo] at h
    rw [hgo] at hs
    obtain ⟨events, hprefix, hevents⟩ := (hnext a).returns h
    exact ⟨events, hs.trans hprefix, hevents⟩

theorem returns_close (tokens : List Token) (opening : Token) (start : Nat) (inner : Formula) :
    Returns .primary start (close tokens opening start inner) := by
  refine .bind (extends_peek tokens) fun closing => ?_
  split_ifs
  · exact .bind (extends_advance tokens) fun _ => returns_leave inner
  all_goals exact returns_throw _

theorem Extends.joins {operand : Walk Formula} (h : Extends operand) (operator : TokenKind)
    (combine : Formula → Formula → Formula) (rounds : Nat) (left : Formula) :
    Extends (Walk.joins tokens operator combine operand rounds left) := by
  induction rounds generalizing left with
  | zero => exact extends_throw _
  | succ rounds ih =>
    refine .bind (extends_peek tokens) fun t => ?_
    split_ifs
    · exact .bind (extends_advance tokens) fun _ => .bind h fun right => ih _
    · exact extends_pure left

/-- A walk of a reader: it takes nothing off the trail, and where it comes to a formula it puts on
first that the reader is entered, and last that it returns. -/
structure IsReader (level : Level) (w : Walk Formula) : Prop where
  keeps : Extends w
  events : ∀ {s f s'}, go w s = (.ok f, s') → ∃ between,
    s'.events = s.events ++ .enters level s.index :: (between ++ [.returns level s.index s'.index])

theorem isReader_throw (halt : Halt) : IsReader level (throw halt) :=
  ⟨extends_throw halt, fun h => by cases h⟩

/-- What enters a reader and returns from it last is a walk of the reader. -/
theorem isReader_of_enter {rest : Nat → Walk Formula} (h : ∀ start, Returns level start (rest start)) :
    IsReader level (enter level >>= rest) := by
  have henter : Extends (enter level) :=
    .bind (fun _ => List.prefix_rfl) fun _ => .bind (extends_log _) fun _ => extends_pure _
  refine ⟨henter.bind fun start => (h start).keeps, fun {s f s'} hgo => ?_⟩
  have hentered : go (enter level) s =
      (.ok s.index, { s with events := s.events ++ [.enters level s.index] }) := rfl
  rw [go_bind_of_ok hentered] at hgo
  obtain ⟨_, ⟨between, rfl⟩, hevents⟩ := (h s.index).returns hgo
  exact ⟨between, by rw [hevents]; simp⟩

/-- The reader of a level. -/
def reader : Level → List Token → Nat → Walk Formula
  | .disjunction => disjunction
  | .conjunction => conjunction
  | .negation => negation
  | .primary => primary

theorem isReader_disjunction (h : Extends (conjunction tokens depth)) :
    IsReader .disjunction (disjunction tokens (depth + 1)) := by
  rw [disjunction]
  exact isReader_of_enter fun start => .bind h fun left =>
    .bind (h.joins .or .disjunction depth left) fun joined => returns_leave joined

theorem isReader_conjunction (h : Extends (negation tokens depth)) :
    IsReader .conjunction (conjunction tokens (depth + 1)) := by
  rw [conjunction]
  exact isReader_of_enter fun start => .bind h fun left =>
    .bind (h.joins .and .conjunction depth left) fun joined => returns_leave joined

theorem isReader_negation (hnegation : Extends (negation tokens depth))
    (hprimary : Extends (primary tokens depth)) :
    IsReader .negation (negation tokens (depth + 1)) := by
  rw [negation]
  refine isReader_of_enter fun start => .bind (extends_peek tokens) fun t => ?_
  split_ifs
  · exact .bind (extends_advance tokens) fun _ => .bind hnegation fun f => returns_leave _
  · exact .bind hprimary fun f => returns_leave f

theorem isReader_primary (h : Extends (disjunction tokens depth)) :
    IsReader .primary (primary tokens (depth + 1)) := by
  rw [primary]
  refine isReader_of_enter fun start => .bind (extends_peek tokens) fun t => ?_
  split
  · exact .bind (extends_advance tokens) fun _ => returns_leave _
  · exact .bind (extends_advance tokens) fun _ => .bind (extends_literal t) fun f => returns_leave f
  · refine .bind (extends_advance tokens) fun _ => .bind (extends_peek tokens) fun next => ?_
    split_ifs
    · exact returns_throw _
    · exact .bind h fun inner => returns_close tokens t start inner
  · exact .bind (extends_previous? tokens) fun previous => returns_throw _

/-- **A reader that returns leaves its events**: that it was entered, what has happened on its way,
and from where to where it has gone. -/
theorem isReader_reader (tokens : List Token) (depth : Nat) :
    ∀ level, IsReader level (reader level tokens depth) := by
  induction depth with
  | zero => exact fun level => by cases level <;> exact isReader_throw _
  | succ depth ih =>
    intro level
    cases level with
    | disjunction => exact isReader_disjunction (ih .conjunction).keeps
    | conjunction => exact isReader_conjunction (ih .negation).keeps
    | negation => exact isReader_negation (ih .negation).keeps (ih .primary).keeps
    | primary => exact isReader_primary (ih .disjunction).keeps

/-! ## Depth -/

/-- One walk goes as another does, unless that one is too deep. -/
def Continues (w w' : Walk α) : Prop := ∀ s, (go w s).1 ≠ .error .tooDeep → go w' s = go w s

theorem Continues.refl (w : Walk α) : Continues w w := fun _ _ => rfl

theorem Continues.trans (h : Continues w w') (h' : Continues w' w'') : Continues w w'' := by
  intro s hs
  rw [h' s ((h s hs).symm ▸ hs), h s hs]

theorem Continues.tooDeep (w : Walk α) : Continues (throw .tooDeep) w := fun _ hs => absurd rfl hs

theorem Continues.bind (hw : Continues w w') (hnext : ∀ a, Continues (next a) (next' a)) :
    Continues (w >>= next) (w' >>= next') := by
  intro s hs
  rcases hgo : go w s with ⟨halt | a, s'⟩
  · rw [go_bind_of_error hgo] at hs ⊢
    have hhalt : halt ≠ .tooDeep := by
      rintro rfl
      exact hs rfl
    exact go_bind_of_error ((hw s (by simpa [hgo] using hhalt)).trans hgo)
  · rw [go_bind_of_ok hgo] at hs ⊢
    rw [go_bind_of_ok ((hw s (by simp [hgo])).trans hgo)]
    exact hnext a s' hs

theorem Continues.joins {operand operand' : Walk Formula} (h : Continues operand operand')
    (operator : TokenKind) (combine : Formula → Formula → Formula) (rounds : Nat) (left : Formula) :
    Continues (Walk.joins tokens operator combine operand rounds left)
      (Walk.joins tokens operator combine operand' (rounds + 1) left) := by
  induction rounds generalizing left with
  | zero => exact .tooDeep _
  | succ rounds ih =>
    rw [Walk.joins, Walk.joins]
    refine .bind (.refl _) fun t => ?_
    split_ifs
    · exact .bind (.refl _) fun _ => .bind h fun right => ih _
    · exact .refl _

/-- All readers go on at the next depth as they do at this one. -/
structure Deepens (tokens : List Token) (depth : Nat) : Prop where
  disjunction : Continues (disjunction tokens depth) (Walk.disjunction tokens (depth + 1))
  conjunction : Continues (conjunction tokens depth) (Walk.conjunction tokens (depth + 1))
  negation : Continues (negation tokens depth) (Walk.negation tokens (depth + 1))
  primary : Continues (primary tokens depth) (Walk.primary tokens (depth + 1))

theorem Deepens.disjunction_succ (h : Deepens tokens depth) :
    Continues (Walk.disjunction tokens (depth + 1)) (Walk.disjunction tokens (depth + 2)) := by
  rw [Walk.disjunction, Walk.disjunction]
  exact .bind (.refl _) fun _ => .bind h.conjunction fun left =>
    .bind (h.conjunction.joins .or .disjunction depth left) fun _ => .refl _

theorem Deepens.conjunction_succ (h : Deepens tokens depth) :
    Continues (Walk.conjunction tokens (depth + 1)) (Walk.conjunction tokens (depth + 2)) := by
  rw [Walk.conjunction, Walk.conjunction]
  exact .bind (.refl _) fun _ => .bind h.negation fun left =>
    .bind (h.negation.joins .and .conjunction depth left) fun _ => .refl _

theorem Deepens.negation_succ (h : Deepens tokens depth) :
    Continues (Walk.negation tokens (depth + 1)) (Walk.negation tokens (depth + 2)) := by
  rw [Walk.negation, Walk.negation]
  refine .bind (.refl _) fun _ => .bind (.refl _) fun t => ?_
  split_ifs
  · exact .bind (.refl _) fun _ => .bind h.negation fun _ => .refl _
  · exact .bind h.primary fun _ => .refl _

theorem Deepens.primary_succ (h : Deepens tokens depth) :
    Continues (Walk.primary tokens (depth + 1)) (Walk.primary tokens (depth + 2)) := by
  rw [Walk.primary, Walk.primary]
  refine .bind (.refl _) fun _ => .bind (.refl _) fun t => ?_
  generalize t.kind = kind
  cases kind with
  | leftParen =>
    refine .bind (.refl _) fun _ => .bind (.refl _) fun next => ?_
    split_ifs
    · exact .refl _
    · exact .bind h.disjunction fun _ => .refl _
  | _ => exact .refl _

theorem deepens (tokens : List Token) (depth : Nat) : Deepens tokens depth := by
  induction depth with
  | zero => exact ⟨.tooDeep _, .tooDeep _, .tooDeep _, .tooDeep _⟩
  | succ depth ih =>
    exact ⟨ih.disjunction_succ, ih.conjunction_succ, ih.negation_succ, ih.primary_succ⟩

/-- **A walk that is not too deep is the same at any greater depth.** -/
theorem whole_of_le (h : depth ≤ depth') : Continues (whole tokens depth) (whole tokens depth') := by
  induction h with
  | refl => exact .refl _
  | step _ ih =>
    refine ih.trans (.bind (.refl _) fun t => ?_)
    split_ifs
    · exact .refl _
    · exact .bind (deepens tokens _).disjunction fun _ => .refl _

end Walk

end Formula

end FuzzyLogic
