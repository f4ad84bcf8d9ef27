import FuzzyLogic.Proofs.Outcome
import FuzzyLogic.Proofs.Session.Definition

/-!
# Proofs/Session/Following — runs that follow a computation on trees and degrees

A session works on objects: they have serials, and nodes keep the values they were made of.  The
library works on trees and degrees.  A run **follows** an outcome of the library when, in whatever
session it starts, it fails with the fault of the outcome or gives an object that stands for its
result (`Session.Follows`).

`Follows.bind` is the one rule of composition.  The rest of the module is one lemma for every
operation on objects: it follows the operation of the library of the same name.
-/

namespace FuzzyLogic

/-! ## What objects stand for -/

/-- The objects of a degree. -/
inductive Value.IsDegree : Membership → Value → Prop
  | mk (serial : Nat) (m : Membership) : IsDegree m (.membership serial m)

/-- The objects of a tree: nodes made of the objects of its parts. -/
inductive Value.IsTree : Node → Value → Prop
  | atom (serial : Nat) {m : Membership} {v : Value} : IsDegree m v →
    IsTree (.atom m) (.node serial (.atom m) [v])
  | labeled (serial : Nat) {m : Membership} {v : Value} (label : Value) : IsDegree m v →
    IsTree (.labeled m label.toLabel) (.node serial (.labeled m label.toLabel) [v, label])
  | not (serial : Nat) {x : Node} {v : Value} : IsTree x v →
    IsTree (.not x) (.node serial (.not x) [v])
  | and (serial : Nat) {x y : Node} {v w : Value} : IsTree x v → IsTree y w →
    IsTree (.and x y) (.node serial (.and x y) [v, w])
  | or (serial : Nat) {x y : Node} {v w : Value} : IsTree x v → IsTree y w →
    IsTree (.or x y) (.node serial (.or x y) [v, w])
  | alternative (serial : Nat) (side : Side) {x : Node} {v : Value} : IsTree x v →
    IsTree (.alternative side x) (.node serial (.alternative side x) [.side side, v])

/-- The fuzzy values that say a degree. -/
inductive Value.Says : Membership → Value → Prop
  | membership (serial : Nat) (m : Membership) : Says m (.membership serial m)
  | domain (serial : Nat) {m : Membership} {v : Value} : IsDegree m v → Says m (.domain serial v)

namespace Value

variable {m : Membership} {x : Node} {v : Value}

theorem IsDegree.says (h : v.IsDegree m) : v.Says m := by
  obtain ⟨serial, m⟩ := h
  exact .membership serial m

theorem IsTree.eq_node (h : v.IsTree x) : ∃ serial parts, v = .node serial x parts := by
  cases h <;> exact ⟨_, _, rfl⟩

end Value

namespace Session

variable {α β γ δ : Type} {P : α → β → Prop} {Q : γ → δ → Prop}

/-! ## Following -/

/-- Two outcomes agree: they are one fault, or related results. -/
def Agrees (P : α → β → Prop) : Except Fault α → Except Fault β → Prop
  | .ok a, .ok b => P a b
  | .error f, .error g => f = g
  | _, _ => False

/-- In every session a run comes to an outcome. -/
def Follows (P : α → β → Prop) (x : Run β) (r : Except Fault α) : Prop :=
  ∀ s, Agrees P r (x.run.run s).1

theorem follows_pure {a : α} {b : β} (h : P a b) : Follows P (pure b) (.ok a) := fun _ => h

theorem follows_throw (fault : Fault) : Follows P (throw fault) (.error fault) := fun _ => rfl

theorem follows_pureRun (r : Except Fault α) : Follows (· = ·) (pureRun r) r := by
  intro s
  rw [run_pureRun]
  cases r <;> rfl

/-- **Runs follow part by part**, the rest only from the results that the first part has. -/
theorem Follows.bind_of {x : Run β} {r : Except Fault α} {k : β → Run δ} {g : α → Except Fault γ}
    (hx : Follows P x r) (hk : ∀ a b, r = .ok a → P a b → Follows Q (k b) (g a)) :
    Follows Q (x >>= k) (r >>= g) := by
  intro s
  have hs := hx s
  obtain ⟨outcome, s', hrun⟩ : ∃ outcome s', x.run.run s = (outcome, s') := ⟨_, _, rfl⟩
  rw [hrun] at hs
  cases r with
  | error f =>
    cases outcome with
    | error g =>
      obtain rfl : f = g := hs
      rw [run_bind_of_error hrun]
      rfl
    | ok b => exact hs.elim
  | ok a =>
    cases outcome with
    | error g => exact hs.elim
    | ok b =>
      rw [run_bind_of_ok hrun]
      exact hk a b rfl hs s'

theorem Follows.bind {x : Run β} {r : Except Fault α} {k : β → Run δ} {g : α → Except Fault γ}
    (hx : Follows P x r) (hk : ∀ a b, P a b → Follows Q (k b) (g a)) :
    Follows Q (x >>= k) (r >>= g) := hx.bind_of fun a b _ => hk a b

theorem Follows.mono {P' : α → β → Prop} {x : Run β} {r : Except Fault α} (hx : Follows P x r)
    (h : ∀ a b, P a b → P' a b) : Follows P' x r := by
  intro s
  have hs := hx s
  cases r with
  | error f =>
    cases hrun : (x.run.run s).1 <;> rw [hrun] at hs <;> exact hs
  | ok a =>
    cases hrun : (x.run.run s).1 with
    | error g => exact (hrun ▸ hs : Agrees P (.ok a) (.error g)).elim
    | ok b => exact h a b (hrun ▸ hs : Agrees P (.ok a) (.ok b))

/-- What a run follows, it follows with the result read in another way. -/
theorem Follows.map {f : α → γ} {R : γ → β → Prop} {x : Run β} {r : Except Fault α}
    (hx : Follows P x r) (h : ∀ a b, P a b → R (f a) b) : Follows R x (r.map f) := by
  intro s
  have hs := hx s
  revert hs
  cases r <;> cases (x.run.run s).1
  · exact id
  · exact False.elim
  · exact False.elim
  · exact h _ _

/-- After a part that succeeds comes the rest. -/
theorem Follows.bind_ok {x : Run β} {a : α} {k : β → Run δ} {r : Except Fault γ}
    (hx : Follows P x (.ok a)) (hk : ∀ b, P a b → Follows Q (k b) r) : Follows Q (x >>= k) r :=
  hx.bind_of (g := fun _ => r) fun _ b ha h => hk b (Except.ok.inj ha ▸ h)

/-- After a part that fails comes nothing. -/
theorem Follows.bind_error {x : Run β} {f : Fault} {k : β → Run δ}
    (hx : Follows P x (.error f : Except Fault α)) :
    Follows Q (x >>= k) (.error f : Except Fault γ) :=
  hx.bind_of (g := fun _ => .error f) fun _ _ ha => nomatch ha

/-- A run that computes first and then makes something of the result. -/
theorem follows_computed {R : α → δ → Prop} {r : Except Fault α} {k : α → Run δ}
    (hk : ∀ a, r = .ok a → Follows R (k a) (.ok a)) : Follows R (pureRun r >>= k) r := by
  have h := (follows_pureRun r).bind_of (Q := R) (k := k) (g := Except.ok) fun a b ha hab =>
    hab ▸ hk a ha
  cases r <;> exact h

/-- A run that follows an error fails with it. -/
theorem Follows.fault {x : Run β} {f : Fault} (h : Follows P x (.error f)) (s : Session) :
    (x.run.run s).1 = .error f := by
  have hs := h s
  cases hrun : (x.run.run s).1 with
  | error g =>
    rw [hrun] at hs
    exact congrArg Except.error (Eq.symm hs)
  | ok b =>
    rw [hrun] at hs
    exact hs.elim

/-! ## Objects made -/

variable {m n : Membership} {x y : Node} {v w : Value} {o : Opset}

theorem follows_newMembership (m : Membership) :
    Follows Value.IsDegree (newMembership m) (.ok m) := fun _ => .mk _ m

theorem follows_construct (raw : Number) (o : Opset) :
    Follows Value.IsDegree (construct (.number raw) (.opset o)) (Membership.of raw o) :=
  follows_computed fun m _ => follows_newMembership m

theorem follows_makeAtom (h : v.IsDegree m) :
    Follows Value.IsTree (makeAtom v) (.ok (.atom m)) := by
  obtain ⟨serial, m⟩ := h
  exact fun _ => .atom _ (.mk serial m)

theorem follows_membershipOf (h : v.Says m) :
    Follows Value.IsDegree (membershipOf v) (.ok m) := by
  cases h with
  | membership serial m => exact follows_pure (.mk serial m)
  | domain serial h => exact follows_pure h

theorem follows_toExpr (h : v.Says m) : Follows Value.IsTree (toExpr v) (.ok (.atom m)) :=
  (follows_membershipOf h).bind_ok fun _ => follows_makeAtom

theorem follows_makeNot (h : v.IsTree x) :
    Follows Value.IsTree (makeNot v) (.ok x.negate) := by
  obtain ⟨serial, parts, rfl⟩ := h.eq_node
  exact fun _ => .not _ h

theorem follows_makeAnd (hv : v.IsTree x) (hw : w.IsTree y) :
    Follows Value.IsTree (makeAnd v w) (x.conjoin y) := by
  obtain ⟨i, _, rfl⟩ := hv.eq_node
  obtain ⟨j, _, rfl⟩ := hw.eq_node
  refine follows_computed fun z hz => ?_
  obtain rfl := (Node.conjoin_eq_ok_iff.mp hz).2
  exact fun _ => .and _ hv hw

theorem follows_makeOr (hv : v.IsTree x) (hw : w.IsTree y) :
    Follows Value.IsTree (makeOr v w) (x.disjoin y) := by
  obtain ⟨i, _, rfl⟩ := hv.eq_node
  obtain ⟨j, _, rfl⟩ := hw.eq_node
  refine follows_computed fun z hz => ?_
  obtain rfl := (Node.disjoin_eq_ok_iff.mp hz).2
  exact fun _ => .or _ hv hw

/-! ## Objects asked -/

/-- A leaf, also behind alternatives, holds the object of its degree. -/
theorem isDegree_leafValue (hv : v.IsTree x) (hw : leafValue? v = some w) :
    ∃ m, w.IsDegree m ∧ x.evaluate = .ok m := by
  induction hv with
  | atom serial h => exact ⟨_, Option.some.inj hw ▸ h, rfl⟩
  | labeled serial label h => exact ⟨_, Option.some.inj hw ▸ h, rfl⟩
  | not | and | or => exact absurd hw (by simp [leafValue?])
  | alternative serial side _ ih =>
    rw [leafValue?] at hw
    exact ih hw

theorem follows_evaluate (hv : v.IsTree x) :
    Follows Value.IsDegree (evaluate v) x.evaluate := by
  obtain ⟨serial, parts, rfl⟩ := hv.eq_node
  rw [evaluate]
  split
  case h_1 w hw =>
    obtain ⟨m, hm, heval⟩ := isDegree_leafValue hv hw
    rw [heval]
    exact follows_pure hm
  case h_2 => exact follows_computed fun m _ => follows_newMembership m

/-! ## Operations applied -/

theorem follows_checkOperand (operation : String) (h : v.IsDegree m) :
    Follows (· = ·) (checkOperand o operation v) (o.checkOperand operation m.opset) := by
  obtain ⟨serial, m⟩ := h
  exact follows_pureRun _

theorem follows_applyNegation (h : v.IsDegree m) :
    Follows Value.IsDegree (applyNegation (.opset o) v) (o.negation m) := by
  refine (follows_checkOperand "negation" h).bind fun _ _ _ => ?_
  obtain ⟨serial, m⟩ := h
  refine (follows_pureRun (o.rawNot m.raw)).bind ?_
  rintro x _ rfl
  exact follows_newMembership _

theorem follows_applyBinary (operation : String) (hook : Opset → BinaryHook) (hv : v.IsDegree m)
    (hw : w.IsDegree n) :
    Follows Value.IsDegree (applyBinary operation hook (.opset o) v w) (do
      o.checkOperand operation m.opset
      o.checkOperand operation n.opset
      return ⟨← hook o m.raw n.raw, o⟩) := by
  refine (follows_checkOperand operation hv).bind fun _ _ _ => ?_
  refine (follows_checkOperand operation hw).bind fun _ _ _ => ?_
  obtain ⟨i, m⟩ := hv
  obtain ⟨j, n⟩ := hw
  refine (follows_pureRun (hook o m.raw n.raw)).bind ?_
  rintro x _ rfl
  exact follows_newMembership _

end Session

end FuzzyLogic
