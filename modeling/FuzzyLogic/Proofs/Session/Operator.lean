import FuzzyLogic.Proofs.Expr.Connective
import FuzzyLogic.Proofs.Session.Following
import FuzzyLogic.Session.Member

/-!
# Proofs/Session/Operator — operators on trees, on values and on markers

A session has three ways to combine degrees: nodes are made and evaluated later, fuzzy values are
combined at once, and a marker applies its operation set to fuzzy values and plain numbers.  Each
follows its operation of the library (`follows_invert`, `follows_operate`, `follows_mark`), and on
the library's side they are one operation, so that the three ways are **alike**: they come to the
same degree or to the same fault.  They part in two places.  A hook may raise a mismatch of its own,
which nodes meet only when they are evaluated (`mismatches_iff`); and only a marker takes plain
numbers as they are (`follows_operate_number`).

`foldValues` makes a tree by the operators on values alone; evaluation is alike to it.
-/

namespace FuzzyLogic

/-- The values that a marker may be applied to. -/
inductive Value.Marks : MarkerOperand → Value → Prop
  | value {m : Membership} {v : Value} : v.Says m → Marks (.value m) v
  | degree (raw : Number) : Marks (.degree raw) (.number raw)

/-- A fuzzy value is of an operation set; a number is of every one. -/
def MarkerOperand.Of (o : Opset) : MarkerOperand → Prop
  | .value m => m.opset = o
  | .degree _ => True

namespace Opset

variable {o : Opset} {p q : MarkerOperand} {m : Membership}

/-- A number that a marker is applied to is validated as every number is. -/
theorem operand_degree (o : Opset) (raw : Number) :
    o.operand (.degree raw) = Membership.of raw o := by
  rw [operand, Membership.of]
  cases raw.toBinary64 <;> rfl

theorem operand_opset (hp : p.Of o) (h : o.operand p = .ok m) : m.opset = o := by
  cases p with
  | value n =>
    obtain rfl : n = m := Except.ok.inj h
    exact hp
  | degree raw =>
    rw [operand_degree] at h
    obtain ⟨x, -, rfl⟩ := Membership.of_eq_ok h
    rfl

/-- A marker negates as degrees are negated. -/
theorem markNegation_eq (hp : p.Of o) : o.markNegation p = o.operand p >>= Membership.negate := by
  rw [markNegation]
  cases h : o.operand p with
  | error f => rfl
  | ok m => exact congrArg (Opset.negation · m) (operand_opset hp h).symm

/-- A marker joins as degrees are joined. -/
theorem mark_eq (c : Connective) (hp : p.Of o) : c.mark o p q = (do
    let m ← o.operand p
    let n ← o.operand q
    c.apply m n) := by
  rw [Connective.mark_eq_under]
  cases h : o.operand p with
  | error f => rfl
  | ok m =>
    obtain rfl := operand_opset hp h
    simp only [Connective.apply_eq]
    rfl

end Opset

namespace Connective

/-- The operator on nodes of a session. -/
def makeNode : Connective → Value → Value → Session.Run Value
  | conjunction => Session.makeAnd
  | disjunction => Session.makeOr

/-- The symbol of the operator. -/
def symbol : Connective → String
  | conjunction => "&"
  | disjunction => "|"

/-- The operator on values of a session. -/
def operate : Connective → Value → Value → Session.Run Value
  | conjunction => Session.conjoin
  | disjunction => Session.disjoin

end Connective

namespace Session

open Connective

variable {F : OpsetFamily} {c : Connective} {m n : Membership} {x y : Node} {v w : Value}
  {o : Opset} {p q : MarkerOperand}

/-! ## Operators follow the library -/

theorem follows_makeNode (c : Connective) (hv : v.IsTree x) (hw : w.IsTree y) :
    Follows Value.IsTree (c.makeNode v w) (c.join x y) := by
  cases c with
  | conjunction => exact follows_makeAnd hv hw
  | disjunction => exact follows_makeOr hv hw

theorem opsetOf_degree (h : v.IsDegree m) : opsetOf v = pure (.opset m.opset) := by
  obtain ⟨serial, m⟩ := h
  rfl

theorem follows_invert (h : v.Says m) : Follows Value.IsDegree (invert v) m.negate := by
  have hrun : invert v = (do
      let m ← membershipOf v
      applyNegation (← opsetOf m) m) := by
    cases h <;> rfl
  rw [hrun]
  refine (follows_membershipOf h).bind_ok fun _ h => ?_
  rw [opsetOf_degree h, pure_bind]
  exact follows_applyNegation h

theorem follows_operate (c : Connective) (hv : v.Says m) (hw : w.Says n) :
    Follows Value.IsDegree (c.operate v w) (c.apply m n) := by
  have hrun : c.operate v w = (do
      let a ← membershipOf v
      let o ← opsetOf a
      let b ← membershipOf w
      applyBinary c.name c.hook o a b) := by
    cases c <;> cases hv <;> cases hw <;> rfl
  rw [hrun, Connective.apply_eq, Connective.under_eq]
  refine (follows_membershipOf hv).bind_ok fun _ hv => ?_
  rw [opsetOf_degree hv, pure_bind]
  exact (follows_membershipOf hw).bind_ok fun _ hw => follows_applyBinary c.name c.hook hv hw

/-! ## Markers follow the library -/

theorem follows_markerOperand (h : v.Marks p) :
    Follows Value.IsDegree (markerOperand (.opset o) v) (o.operand p) := by
  cases h with
  | value h =>
    have hrun : markerOperand (.opset o) v = membershipOf v := by cases h <;> rfl
    rw [hrun]
    exact follows_membershipOf h
  | degree raw =>
    refine (follows_pureRun raw.toBinary64).bind ?_
    rintro x _ rfl
    exact follows_construct _ o

theorem follows_markNegation (h : v.Marks p) :
    Follows Value.IsDegree (markerMethod (.opset o) "negation" [v]) (o.markNegation p) :=
  (follows_markerOperand h).bind fun _ _ => follows_applyNegation

theorem follows_mark (c : Connective) (hv : v.Marks p) (hw : w.Marks q) :
    Follows Value.IsDegree (markerMethod (.opset o) c.name [v, w]) (c.mark o p q) := by
  have hrun : markerMethod (.opset o) c.name [v, w] = (do
      let a ← markerOperand (.opset o) v
      let b ← markerOperand (.opset o) w
      applyBinary c.name c.hook (.opset o) a b) := by
    cases c <;> rfl
  rw [hrun, Connective.mark_eq_under]
  simp only [Connective.under_eq]
  exact (follows_markerOperand hv).bind fun _ _ hv =>
    (follows_markerOperand hw).bind fun _ _ hw => follows_applyBinary c.name c.hook hv hw

/-! ## Two orders of evaluation -/

/-- Two runs come to one degree or to one fault, in whatever sessions they start. -/
def Alike (a b : Run Value) : Prop :=
  ∃ r : Except Fault Membership, Follows Value.IsDegree a r ∧ Follows Value.IsDegree b r

/-- A run is refused, in every session, because operation sets differ. -/
def Mismatches (a : Run Value) : Prop :=
  ∃ operation left right, ∀ s, (a.run.run s).1 = .error (.opsetMismatch operation left right)

/-- Negates a node, and then evaluates. -/
def negateThenEvaluate (v : Value) : Run Value := do evaluate (← makeNot v)

/-- Evaluates, and then negates the degree. -/
def evaluateThenNegate (v : Value) : Run Value := do invert (← evaluate v)

/-- Joins nodes, and then evaluates. -/
def joinThenEvaluate (c : Connective) (v w : Value) : Run Value := do evaluate (← c.makeNode v w)

/-- Evaluates, and then joins the degrees. -/
def evaluateThenJoin (c : Connective) (v w : Value) : Run Value := do
  let a ← evaluate v
  let b ← evaluate w
  c.operate a b

theorem follows_negateThenEvaluate (hv : v.IsTree x) :
    Follows Value.IsDegree (negateThenEvaluate v) x.negate.evaluate :=
  (follows_makeNot hv).bind_ok fun _ => follows_evaluate

theorem follows_evaluateThenNegate (hv : v.IsTree x) :
    Follows Value.IsDegree (evaluateThenNegate v) (x.evaluate >>= Membership.negate) :=
  (follows_evaluate hv).bind fun _ _ h => follows_invert h.says

theorem follows_joinThenEvaluate (c : Connective) (hv : v.IsTree x) (hw : w.IsTree y) :
    Follows Value.IsDegree (joinThenEvaluate c v w) (c.join x y >>= Node.evaluate) :=
  (follows_makeNode c hv hw).bind fun _ _ => follows_evaluate

theorem follows_evaluateThenJoin (c : Connective) (hv : v.IsTree x) (hw : w.IsTree y) :
    Follows Value.IsDegree (evaluateThenJoin c v w) (do
      let a ← x.evaluate
      let b ← y.evaluate
      c.apply a b) :=
  (follows_evaluate hv).bind fun _ _ ha =>
    (follows_evaluate hw).bind fun _ _ hb => follows_operate c ha.says hb.says

/-- Negation before evaluation and after it. -/
theorem alike_negate (hx : x.Uniform o) (hv : v.IsTree x) :
    Alike (negateThenEvaluate v) (evaluateThenNegate v) := by
  refine ⟨_, follows_negateThenEvaluate hv, ?_⟩
  rw [Node.evaluate_negate hx]
  exact follows_evaluateThenNegate hv

/-- Joining before evaluation and after it, under one operation set. -/
theorem alike_join (c : Connective) (hx : x.Uniform o) (hopset : x.opset = y.opset)
    (hv : v.IsTree x) (hw : w.IsTree y) :
    Alike (joinThenEvaluate c v w) (evaluateThenJoin c v w) := by
  refine ⟨_, follows_joinThenEvaluate c hv hw, ?_⟩
  have hjoin : c.join x y >>= Node.evaluate = (c.node x y).evaluate := by
    rw [Connective.join_of_opset_eq hopset]
    rfl
  rw [hjoin, Node.evaluate_node c hx]
  exact follows_evaluateThenJoin c hv hw

/-! ## Markers beside nodes and values -/

/-- What a marker is applied to, as a leaf. -/
def asLeaf (o : Opset) (v : Value) : Run Value :=
  if isFuzzy v then toExpr v else opsetMethod o "atom" [v]

/-- What a marker is applied to, as a fuzzy value. -/
def asFuzzy (o : Opset) (v : Value) : Run Value :=
  if isFuzzy v then pure v else opsetMethod o "member" [v]

theorem isFuzzy_of_says (h : v.Says m) : isFuzzy v = true := by cases h <;> rfl

theorem follows_asFuzzy (h : v.Marks p) :
    Follows Value.Says (asFuzzy o v) (o.operand p) := by
  cases h with
  | value h =>
    rw [asFuzzy, isFuzzy_of_says h, if_pos rfl]
    exact follows_pure h
  | degree raw =>
    rw [Opset.operand_degree]
    exact (follows_construct raw o).mono fun _ _ => Value.IsDegree.says

theorem follows_asLeaf (h : v.Marks p) :
    Follows Value.IsTree (asLeaf o v) (do return .atom (← o.operand p)) := by
  cases h with
  | value h =>
    rw [asLeaf, isFuzzy_of_says h, if_pos rfl]
    exact follows_toExpr h
  | degree raw =>
    rw [Opset.operand_degree]
    exact (follows_construct raw o).bind fun _ _ => follows_makeAtom

/-- A marker negates as nodes and as fuzzy values are negated. -/
theorem alike_markNegation (hv : v.Marks p) (hp : p.Of o) :
    Alike (do negateThenEvaluate (← asLeaf o v)) (markerMethod (.opset o) "negation" [v]) ∧
    Alike (do invert (← asFuzzy o v)) (markerMethod (.opset o) "negation" [v]) := by
  have hmark := follows_markNegation (o := o) hv
  rw [Opset.markNegation_eq hp] at hmark
  refine ⟨⟨_, ?_, hmark⟩, ⟨_, (follows_asFuzzy hv).bind fun _ _ => follows_invert, hmark⟩⟩
  have hnode := (follows_asLeaf (o := o) hv).bind fun _ _ => follows_negateThenEvaluate
  cases h : o.operand p <;> rw [h] at hnode <;> exact hnode

/-- A marker joins as nodes and as fuzzy values are joined. -/
theorem alike_mark (c : Connective) (hv : v.Marks p) (hw : w.Marks q) (hp : p.Of o) (hq : q.Of o) :
    Alike (do
      let a ← asLeaf o v
      let b ← asLeaf o w
      joinThenEvaluate c a b) (markerMethod (.opset o) c.name [v, w]) ∧
    Alike (do
      let a ← asFuzzy o v
      let b ← asFuzzy o w
      c.operate a b) (markerMethod (.opset o) c.name [v, w]) := by
  have hmark := follows_mark (o := o) c hv hw
  rw [Opset.mark_eq c hp] at hmark
  refine ⟨⟨_, ?_, hmark⟩, ⟨_, (follows_asFuzzy hv).bind fun _ _ ha =>
    (follows_asFuzzy hw).bind fun _ _ => follows_operate c ha, hmark⟩⟩
  have hnode := (follows_asLeaf (o := o) hv).bind fun _ _ ha =>
    (follows_asLeaf (o := o) hw).bind fun _ _ => follows_joinThenEvaluate c ha
  cases h : o.operand p with
  | error f =>
    rw [h] at hnode
    exact hnode
  | ok m =>
    cases h' : o.operand q with
    | error f =>
      rw [h, h'] at hnode
      exact hnode
    | ok n =>
      rw [h, h'] at hnode
      have hopset : (Node.atom m).opset = (Node.atom n).opset :=
        (Opset.operand_opset hp h).trans (Opset.operand_opset hq h').symm
      have hjoin : c.join (.atom m) (.atom n) >>= Node.evaluate = c.apply m n := by
        rw [Connective.join_of_opset_eq hopset]
        cases c <;> rfl
      change Follows Value.IsDegree _ (c.apply m n)
      rw [← hjoin]
      exact hnode

/-! ## Trees by the operators on values -/

/-- The degree of a tree by the operators on values. -/
def foldValues : Node → Run Value
  | .atom m | .labeled m _ => newMembership m
  | .not x => do invert (← foldValues x)
  | .and x y => do
    let a ← foldValues x
    let b ← foldValues y
    conjoin a b
  | .or x y => do
    let a ← foldValues x
    let b ← foldValues y
    disjoin a b
  | .alternative _ x => foldValues x

/-- **Evaluation folds the operators on values over the leaves.** -/
theorem follows_foldValues (hx : x.Uniform o) :
    Follows Value.IsDegree (foldValues x) x.evaluate := by
  induction x with
  | atom m | labeled m label => exact follows_newMembership m
  | not x ih =>
    have hnot : x.Uniform o := hx
    change Follows _ _ x.negate.evaluate
    rw [Node.evaluate_negate hnot]
    exact (ih hnot).bind fun _ _ h => follows_invert h.says
  | and x y ihx ihy =>
    obtain ⟨hl, hr⟩ := Node.uniform_and.mp hx
    change Follows _ _ (Connective.conjunction.node x y).evaluate
    rw [Node.evaluate_node .conjunction hl]
    exact (ihx hl).bind fun _ _ ha => (ihy hr).bind fun _ _ hb =>
      follows_operate .conjunction ha.says hb.says
  | or x y ihx ihy =>
    obtain ⟨hl, hr⟩ := Node.uniform_or.mp hx
    change Follows _ _ (Connective.disjunction.node x y).evaluate
    rw [Node.evaluate_node .disjunction hl]
    exact (ihx hl).bind fun _ _ ha => (ihy hr).bind fun _ _ hb =>
      follows_operate .disjunction ha.says hb.says
  | alternative side x ih => exact ih hx

/-! ## Mismatches -/

/-- What follows an outcome is refused exactly where the outcome is a mismatch. -/
theorem Follows.mismatches_iff {α : Type} {P : α → Value → Prop} {a : Run Value}
    {r : Except Fault α} (h : Follows P a r) :
    Mismatches a ↔ ∃ operation left right, r = .error (.opsetMismatch operation left right) := by
  constructor
  · rintro ⟨operation, left, right, hrun⟩
    refine ⟨operation, left, right, ?_⟩
    have hs := h start
    rw [hrun] at hs
    cases r with
    | error f => exact congrArg Except.error hs
    | ok a => exact hs.elim
  · rintro ⟨operation, left, right, rfl⟩
    exact ⟨operation, left, right, h.fault⟩

/-- Both orders look at the same two operation sets: where these differ both are mismatches, and
where they do not nothing is left but the hook. -/
theorem refused_alike (c : Connective) (hx : Node.Built F x) (hy : Node.Built F y)
    (hv : v.IsTree x) (hw : w.IsTree y) (hm : x.evaluate = .ok m) (hn : y.evaluate = .ok n) :
    (x.opset ≠ y.opset → Mismatches (c.makeNode v w) ∧ Mismatches (evaluateThenJoin c v w)) ∧
    (x.opset = y.opset → Follows Value.IsTree (c.makeNode v w) (.ok (c.node x y)) ∧
      Follows Value.IsDegree (evaluateThenJoin c v w)
        (Node.tagged x.opset (c.hook x.opset m.raw n.raw))) := by
  have hnode := follows_makeNode c hv hw
  have hdegree : Follows Value.IsDegree (evaluateThenJoin c v w) (c.apply m n) := by
    have h := follows_evaluateThenJoin c hv hw
    rw [hm, hn] at h
    exact h
  have hmopset := hx.uniform.2.evaluate_opset hm
  have hnopset := hy.uniform.2.evaluate_opset hn
  constructor
  · intro hne
    have hsame := hx.not_same hy hne
    rw [hnode.mismatches_iff, hdegree.mismatches_iff]
    exact ⟨⟨_, _, _, Connective.join_of_not_same hsame⟩,
      ⟨_, _, _, Connective.apply_of_not_same (by rw [hmopset, hnopset]; exact hsame)⟩⟩
  · intro heq
    rw [Connective.join_of_opset_eq heq] at hnode
    rw [Connective.apply_of_opset_eq (by rw [hmopset, hnopset, heq]), hmopset] at hdegree
    exact ⟨hnode, hdegree⟩

/-- Nodes are a mismatch exactly where the operation sets differ; degrees also where a hook raises
one of its own. -/
theorem mismatches_iff (c : Connective) (hx : Node.Built F x) (hy : Node.Built F y)
    (hv : v.IsTree x) (hw : w.IsTree y) (hm : x.evaluate = .ok m) (hn : y.evaluate = .ok n) :
    (Mismatches (c.makeNode v w) ↔ x.opset ≠ y.opset) ∧
    (Mismatches (evaluateThenJoin c v w) ↔ x.opset ≠ y.opset ∨
      ∃ operation left right,
        c.hook x.opset m.raw n.raw = .error (.opsetMismatch operation left right)) := by
  obtain ⟨hdiffer, hagree⟩ := refused_alike c hx hy hv hw hm hn
  by_cases heq : x.opset = y.opset
  · obtain ⟨hnode, hdegree⟩ := hagree heq
    refine ⟨iff_of_false (fun hmis => ?_) (not_not_intro heq), ?_⟩
    · obtain ⟨_, _, _, hmis⟩ := hnode.mismatches_iff.mp hmis
      cases hmis
    · simp only [hdegree.mismatches_iff, Node.tagged, Outcome.map_eq_error,
        or_iff_right (not_not_intro heq)]
  · exact ⟨iff_of_true (hdiffer heq).1 heq, iff_of_true (hdiffer heq).2 (.inl heq)⟩

/-! ## Plain numbers -/

/-- The operators on values take no plain numbers. -/
theorem follows_operate_number (c : Connective) (hv : v.Says m) (raw : Number) :
    Follows Value.IsDegree (c.operate v (.number raw))
      (.error (.unsupportedOperands c.symbol v.typeName raw.typeName)) ∧
    Follows Value.IsDegree (c.operate (.number raw) v)
      (.error (.unsupportedOperands c.symbol raw.typeName v.typeName)) := by
  have hleft : c.operate v (.number raw) =
      throw (.unsupportedOperands c.symbol v.typeName raw.typeName) := by
    cases c <;> cases hv <;> rfl
  have hright : c.operate (.number raw) v =
      throw (.unsupportedOperands c.symbol raw.typeName v.typeName) := by
    cases c <;> cases hv <;> cases raw <;> rfl
  rw [hleft, hright]
  exact ⟨follows_throw _, follows_throw _⟩

/-- **Operators on trees, on values and on markers agree.**  Of nodes for any two built trees:

* under one operation set, negating or joining them and then evaluating is alike to evaluating them
  and applying the operator to the degrees;
* fuzzy values of an operation set, and plain numbers, are combined alike as leaves, as fuzzy values
  and by the marker of the operation set.  The operators on values take plain numbers only so, as
  fuzzy values made of them, and refuse the numbers themselves;
* where both evaluate, joining the nodes and joining the degrees both are mismatches when the
  operation sets differ.  When they do not, the node is made and the degree is what the hook says.
  So the nodes are a mismatch exactly where the operation sets differ, and the degrees exactly where
  these differ or the hook raises a mismatch of its own;
* evaluation is alike to the operators on values, folded over the leaves. -/
theorem operators_agree (hx : Node.Built F x) (hy : Node.Built F y) (hv : v.IsTree x)
    (hw : w.IsTree y) :
    (Alike (negateThenEvaluate v) (evaluateThenNegate v) ∧
      (x.opset = y.opset → ∀ c, Alike (joinThenEvaluate c v w) (evaluateThenJoin c v w))) ∧
    (∀ o p q a b, Value.Marks p a → Value.Marks q b → p.Of o → q.Of o →
      (Alike (do negateThenEvaluate (← asLeaf o a)) (markerMethod (.opset o) "negation" [a]) ∧
        Alike (do invert (← asFuzzy o a)) (markerMethod (.opset o) "negation" [a])) ∧
      ∀ c, Alike (do
          let a ← asLeaf o a
          let b ← asLeaf o b
          joinThenEvaluate c a b) (markerMethod (.opset o) c.name [a, b]) ∧
        Alike (do
          let a ← asFuzzy o a
          let b ← asFuzzy o b
          c.operate a b) (markerMethod (.opset o) c.name [a, b])) ∧
    (∀ m u (c : Connective) (raw : Number), Value.Says m u →
      Follows Value.IsDegree (c.operate u (.number raw))
        (.error (.unsupportedOperands c.symbol u.typeName raw.typeName)) ∧
      Follows Value.IsDegree (c.operate (.number raw) u)
        (.error (.unsupportedOperands c.symbol raw.typeName u.typeName))) ∧
    (∀ m n, x.evaluate = .ok m → y.evaluate = .ok n → ∀ c,
      (x.opset ≠ y.opset → Mismatches (c.makeNode v w) ∧ Mismatches (evaluateThenJoin c v w)) ∧
      (x.opset = y.opset → Follows Value.IsTree (c.makeNode v w) (.ok (c.node x y)) ∧
        Follows Value.IsDegree (evaluateThenJoin c v w)
          (Node.tagged x.opset (c.hook x.opset m.raw n.raw))) ∧
      (Mismatches (c.makeNode v w) ↔ x.opset ≠ y.opset) ∧
      (Mismatches (evaluateThenJoin c v w) ↔ x.opset ≠ y.opset ∨
        ∃ operation left right,
          c.hook x.opset m.raw n.raw = .error (.opsetMismatch operation left right))) ∧
    Alike (evaluate v) (foldValues x) := by
  have hu := hx.uniform.2
  refine ⟨⟨alike_negate hu hv, fun h c => alike_join c hu h hv hw⟩, ?_,
    fun m u c raw hsays => follows_operate_number c hsays raw, fun m n hm hn c => ?_,
    ⟨_, follows_evaluate hv, follows_foldValues hu⟩⟩
  · intro o p q a b ha hb hp hq
    exact ⟨alike_markNegation ha hp, fun c => alike_mark c ha hb hp hq⟩
  · obtain ⟨hdiffer, hagree⟩ := refused_alike c hx hy hv hw hm hn
    exact ⟨hdiffer, hagree, mismatches_iff c hx hy hv hw hm hn⟩

/-- A tree that chooses and a leaf of the catalogue; a marker on a domain object and a number. -/
theorem choosingTree_operators_agree :
    ∃ v w, v.IsTree Node.choosingTree ∧ w.IsTree (.atom ⟨.float .one, Catalogue.yager1⟩) ∧
      Alike (negateThenEvaluate v) (evaluateThenNegate v) ∧
      Alike (joinThenEvaluate .conjunction v v) (evaluateThenJoin .conjunction v v) ∧
      Alike (evaluate v) (foldValues Node.choosingTree) ∧
      Mismatches (Connective.disjunction.makeNode v w) ∧
      Mismatches (evaluateThenJoin .disjunction v w) ∧
      Alike (do
          let a ← asFuzzy Node.choosing (.domain 7 (.membership 8 ⟨.float .one, Node.choosing⟩))
          let b ← asFuzzy Node.choosing (.number (.int 1))
          disjoin a b)
        (markerMethod (.opset Node.choosing) "disjunction"
          [.domain 7 (.membership 8 ⟨.float .one, Node.choosing⟩), .number (.int 1)]) := by
  have hleft : Value.IsTree _ _ :=
    .alternative 2 .left (.labeled 1 (.text "a") (.mk 0 ⟨.float .one, Node.choosing⟩))
  have hright : Value.IsTree _ _ := .not 5 (.atom 4 (.mk 3 ⟨.float .zero, Node.choosing⟩))
  have hv : Value.IsTree Node.choosingTree _ := .or 6 hleft hright
  have hw : Value.IsTree _ _ := .atom 10 (.mk 9 ⟨.float .one, Catalogue.yager1⟩)
  have hother : Node.Built Node.choosingFamily (.atom ⟨.float .one, Catalogue.yager1⟩) :=
    .atom (List.mem_cons_of_mem _ List.mem_cons_self)
  have hdomain : Value.Marks _ _ :=
    .value (.domain 7 (.mk 8 ⟨.float .one, Node.choosing⟩))
  have hne : Node.choosing ≠ Catalogue.yager1 := fun h => absurd (congrArg Opset.id h) (by decide)
  obtain ⟨⟨hnegate, -⟩, hmark, -, hrefused, hfold⟩ :=
    operators_agree Node.built_choosingTree hother hv hw
  obtain ⟨⟨-, hjoin⟩, -⟩ :=
    operators_agree Node.built_choosingTree Node.built_choosingTree hv hv
  have hfolded : Node.choosingTree.fold Node.choosing = .ok (.float .one) := by decide +kernel
  have heval : Node.choosingTree.evaluate = .ok ⟨.float .one, Node.choosing⟩ :=
    (Node.evaluate_eq_fold Node.built_choosingTree.uniform.2).trans
      (congrArg (Node.tagged Node.choosing) hfolded)
  obtain ⟨hmismatch, -⟩ := hrefused _ _ heval rfl .disjunction
  exact ⟨_, _, hv, hw, hnegate, hjoin rfl .conjunction, hfold, (hmismatch hne).1,
    (hmismatch hne).2,
    ((hmark Node.choosing _ _ _ _ hdomain (.degree (.int 1)) rfl trivial).2 .disjunction).2⟩

/-- A set whose conjunction raises a mismatch of its own. -/
def refusing : Opset :=
  { Node.choosing with
    className := "Refusing"
    conjunctionHook := .function fun _ _ => .error (.opsetMismatch "conjunction" "Refusing" "none") }

/-- **The operators may differ.**  Under a set whose hook raises a mismatch the node of two leaves is
made, while the conjunction of their degrees is a mismatch.  And a degree goes with a plain number
under a marker, but not under the operator on values. -/
theorem operators_differ :
    (∃ v, v.IsTree (.atom ⟨.float .one, refusing⟩) ∧
      Node.Built (.ofList [refusing] (by decide)) (.atom ⟨.float .one, refusing⟩) ∧
      ¬ Mismatches (makeAnd v v) ∧ Mismatches (evaluateThenJoin .conjunction v v)) ∧
    ∃ v, v.Says ⟨.float .one, Catalogue.hamacher1⟩ ∧
      Follows Value.IsDegree
        (markerMethod (.opset Catalogue.hamacher1) "conjunction" [v, .number (.float .one)])
        (.ok ⟨.float .one, Catalogue.hamacher1⟩) ∧
      Follows Value.IsDegree (conjoin v (.number (.float .one)))
        (.error (.unsupportedOperands "&" "Membership" "float")) := by
  have hbuilt : Node.Built (.ofList [refusing] (by decide)) (.atom ⟨.float .one, refusing⟩) :=
    .atom (List.mem_singleton_self _)
  have hv : Value.IsTree _ _ := .atom 1 (.mk 0 ⟨.float .one, refusing⟩)
  have hsays : Value.Says _ _ := .membership 0 ⟨.float .one, Catalogue.hamacher1⟩
  obtain ⟨hnode, hdegree⟩ := mismatches_iff .conjunction hbuilt hbuilt hv hv rfl rfl
  refine ⟨⟨_, hv, hbuilt, fun hmis => hnode.mp hmis rfl,
    hdegree.mpr (.inr ⟨_, _, _, rfl⟩)⟩, _, hsays, ?_,
    (follows_operate_number .conjunction hsays (.float .one)).1⟩
  have hone := Membership.of_of_isDegree (x := .one) (by decide) Catalogue.hamacher1
  have hproduct : Catalogue.hamacher1.rawAnd (.float .one) (.float .one) = .ok (.float .one) := by
    decide +kernel
  have hmark : Connective.conjunction.mark Catalogue.hamacher1
      (.value ⟨.float .one, Catalogue.hamacher1⟩) (.degree (.float .one)) =
        .ok ⟨.float .one, Catalogue.hamacher1⟩ := by
    have hof : MarkerOperand.Of Catalogue.hamacher1 (.value ⟨.float .one, Catalogue.hamacher1⟩) := rfl
    rw [Opset.mark_eq .conjunction hof, Opset.operand_degree, hone]
    change Connective.conjunction.apply ⟨.float .one, Catalogue.hamacher1⟩
      ⟨.float .one, Catalogue.hamacher1⟩ = _
    rw [Connective.apply_of_opset_eq rfl, Connective.hook, hproduct]
    rfl
  exact hmark ▸ follows_mark .conjunction (.value hsays) (.degree (.float .one))

end Session

end FuzzyLogic
