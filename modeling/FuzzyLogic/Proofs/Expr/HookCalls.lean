import FuzzyLogic.Proofs.Expr.Connective

/-!
# Proofs/Expr/HookCalls — which hooks an evaluation calls, and in which order

`Node.evaluateIn call` is evaluation line by line, with every hook called through `call`: in a monad
of any effects, a hook may do and return what it likes.  With hooks that just return their outcome
it is `Node.evaluate` (`evaluateIn_outcome`).

Whatever the hooks do, it **runs the nodes of the tree in post-order** on a stack, one call for each
operation (`evaluateIn_eq_foldlM`).  With hooks that log their calls, the log is read off: it holds
one call for each operation in post-order, up to the first one that raises (`CalledInOrder`).
-/

namespace FuzzyLogic

/-- A call of a hook of an operation set. -/
inductive HookCall
  | negation (o : Opset) (x : Number)
  | join (c : Connective) (o : Opset) (a b : Number)

namespace HookCall

/-- What the hook returns or raises. -/
def outcome : HookCall → Except Fault Number
  | negation o x => o.rawNot x
  | join c o a b => c.hook o a b

/-- The same call of a hook of another operation set. -/
def moved (p : Opset) : HookCall → HookCall
  | negation _ x => negation p x
  | join c _ a b => join c p a b

end HookCall

/-- Where a class holds the hook. -/
def Connective.slot : Connective → Opset → Hook BinaryHook
  | conjunction => Opset.conjunctionHook
  | disjunction => Opset.disjunctionHook

/-- A hook that is a function is called as it is. -/
theorem Connective.hook_eq {c : Connective} {o : Opset} {run : BinaryHook}
    (h : c.slot o = .function run) (a b : Number) : c.hook o a b = run a b := by
  cases c with
  | conjunction =>
    have hslot : o.conjunctionHook = .function run := h
    rw [hook, Opset.rawAnd, hslot]
    rfl
  | disjunction =>
    have hslot : o.disjunctionHook = .function run := h
    rw [hook, Opset.rawOr, hslot]
    rfl

namespace Opset

variable {o : Opset}

theorem rawNot_eq {run : UnaryHook} (h : o.negationHook = .function run) (a : Number) :
    o.rawNot a = run a := by
  rw [rawNot, h]
  rfl

/-- The hooks of a concrete operation set are functions. -/
theorem exists_hooks (h : o.isConcrete = true) :
    (∃ run, o.negationHook = .function run) ∧
      ∀ c : Connective, ∃ run, c.slot o = .function run := by
  have hfunction : ∀ {α : Type} {hook : Hook α}, hook.isFunction = true →
      ∃ run, hook = .function run := by
    intro α hook hhook
    cases hook with
    | function run => exact ⟨run, rfl⟩
    | missing | constant _ => cases hhook
  simp only [isConcrete, Bool.and_eq_true] at h
  obtain ⟨⟨hnot, hor⟩, hand⟩ := h
  refine ⟨hfunction hnot, fun c => ?_⟩
  cases c with
  | conjunction => exact hfunction hand
  | disjunction => exact hfunction hor

end Opset

namespace Node

/-! ## Evaluation with effects -/

section Effects

variable {n : Type → Type} [Monad n]

/-- The negation of a degree, with the hook called through `call`. -/
def negationIn (call : HookCall → ExceptT Fault n Number) (o : Opset) (m : Membership) :
    ExceptT Fault n Membership := do
  ExceptT.mk (pure (o.checkOperand "negation" m.opset))
  return ⟨← call (.negation o m.raw), o⟩

/-- Two degrees joined, with the hook called through `call`. -/
def joinIn (call : HookCall → ExceptT Fault n Number) (c : Connective) (o : Opset)
    (m k : Membership) : ExceptT Fault n Membership := do
  ExceptT.mk (pure (o.checkOperand c.name m.opset))
  ExceptT.mk (pure (o.checkOperand c.name k.opset))
  return ⟨← call (.join c o m.raw k.raw), o⟩

/-- Evaluation, with every hook called through `call`. -/
def evaluateIn (call : HookCall → ExceptT Fault n Number) : Node → ExceptT Fault n Membership
  | atom value | labeled value _ => pure value
  | not child => do
    let value ← child.evaluateIn call
    negationIn call child.opset value
  | and left right => do
    let lhs ← left.evaluateIn call
    let rhs ← right.evaluateIn call
    joinIn call .conjunction left.opset lhs rhs
  | or left right => do
    let lhs ← left.evaluateIn call
    let rhs ← right.evaluateIn call
    joinIn call .disjunction left.opset lhs rhs
  | alternative _ branch => branch.evaluateIn call

/-- The degree of a tree by the hooks of one operation set, called through `call`. -/
def foldIn (call : HookCall → ExceptT Fault n Number) (o : Opset) : Node → ExceptT Fault n Number
  | atom value | labeled value _ => pure value.raw
  | not child => do call (.negation o (← child.foldIn call o))
  | and left right => do
    let a ← left.foldIn call o
    let b ← right.foldIn call o
    call (.join .conjunction o a b)
  | or left right => do
    let a ← left.foldIn call o
    let b ← right.foldIn call o
    call (.join .disjunction o a b)
  | alternative _ branch => branch.foldIn call o

variable {call : HookCall → ExceptT Fault n Number} {o : Opset} {x y : Node}

/-- An operand of the own operation set passes without effect. -/
theorem check_self (o : Opset) (operation : String) :
    (ExceptT.mk (pure (o.checkOperand operation o)) : ExceptT Fault n Unit) = pure () := by
  rw [Opset.checkOperand_self]
  rfl

theorem negationIn_self [LawfulMonad n] (a : Number) :
    negationIn call o ⟨a, o⟩ = (⟨·, o⟩) <$> call (.negation o a) := by
  rw [negationIn, check_self, pure_bind, map_eq_pure_bind]

theorem joinIn_self [LawfulMonad n] (c : Connective) (a b : Number) :
    joinIn call c o ⟨a, o⟩ ⟨b, o⟩ = (⟨·, o⟩) <$> call (.join c o a b) := by
  rw [joinIn, check_self, pure_bind, pure_bind, map_eq_pure_bind]

theorem evaluateIn_node (c : Connective) : (c.node x y).evaluateIn call = (do
    let lhs ← x.evaluateIn call
    let rhs ← y.evaluateIn call
    joinIn call c x.opset lhs rhs) := by cases c <;> rfl

theorem foldIn_node (c : Connective) : (c.node x y).foldIn call o = (do
    let a ← x.foldIn call o
    let b ← y.foldIn call o
    call (.join c o a b)) := by cases c <;> rfl

theorem evaluateIn_eq_foldIn [LawfulMonad n] (h : x.Uniform o) :
    x.evaluateIn call = (⟨·, o⟩) <$> x.foldIn call o := by
  have hnode : ∀ (c : Connective) (x y : Node), x.Uniform o →
      x.evaluateIn call = (⟨·, o⟩) <$> x.foldIn call o →
      y.evaluateIn call = (⟨·, o⟩) <$> y.foldIn call o →
      (c.node x y).evaluateIn call = (⟨·, o⟩) <$> (c.node x y).foldIn call o := by
    intro c x y hx ihx ihy
    rw [evaluateIn_node, foldIn_node, ihx, ihy, hx.opset_eq]
    simp [joinIn_self]
  induction x with
  | atom m | labeled m _ =>
    obtain rfl := h m (List.mem_singleton_self m)
    rw [evaluateIn, foldIn, map_pure]
  | not x ih =>
    have hx : x.Uniform o := h
    rw [evaluateIn, foldIn, ih hx, hx.opset_eq]
    simp [negationIn_self]
  | and x y ihx ihy =>
    obtain ⟨hx, hy⟩ := uniform_and.mp h
    exact hnode .conjunction x y hx (ihx hx) (ihy hy)
  | or x y ihx ihy =>
    obtain ⟨hx, hy⟩ := uniform_or.mp h
    exact hnode .disjunction x y hx (ihx hx) (ihy hy)
  | alternative s x ih => exact ih h

/-! ## The order of the nodes -/

/-- The nodes of a tree in post-order: what is below a node before it, on the left before on the
right. -/
def postorder : Node → List Node
  | atom value => [atom value]
  | labeled value label => [labeled value label]
  | not child => child.postorder ++ [not child]
  | and left right => left.postorder ++ right.postorder ++ [and left right]
  | or left right => left.postorder ++ right.postorder ++ [or left right]
  | alternative side branch => branch.postorder ++ [alternative side branch]

/-- A negation, conjunction or disjunction. -/
def isOperation : Node → Bool
  | not _ | and _ _ | or _ _ => true
  | _ => false

/-- The operations of a tree in post-order. -/
def operations (x : Node) : List Node := x.postorder.filter isOperation

/-- What a node does to a stack of degrees: a leaf puts its own on it, an operation takes its
operands off and puts on what one call of its hook returns.  A stack that is too short for a node
stays as it is; no tree comes to one. -/
def exec (call : HookCall → ExceptT Fault n Number) (o : Opset) :
    List Number → Node → ExceptT Fault n (List Number)
  | stack, atom value | stack, labeled value _ => pure (value.raw :: stack)
  | a :: stack, not _ => do return (← call (.negation o a)) :: stack
  | b :: a :: stack, and _ _ => do return (← call (.join .conjunction o a b)) :: stack
  | b :: a :: stack, or _ _ => do return (← call (.join .disjunction o a b)) :: stack
  | stack, _ => pure stack

theorem foldlM_postorder [LawfulMonad n] (x : Node) (stack : List Number) :
    x.postorder.foldlM (exec call o) stack = (· :: stack) <$> x.foldIn call o := by
  induction x generalizing stack with
  | atom m | labeled m _ => simp [postorder, exec, foldIn]
  | not x ih => simp [postorder, exec, foldIn, ih]
  | and x y ihx ihy | or x y ihx ihy => simp [postorder, exec, foldIn, ihx, ihy]
  | alternative s x ih => simp [postorder, exec, foldIn, ih]

/-- **Evaluation runs the nodes in post-order**, whatever the hooks do and return. -/
theorem evaluateIn_eq_foldlM [LawfulMonad n] (h : x.Uniform o) :
    (fun m => [m.raw]) <$> x.evaluateIn call = x.postorder.foldlM (exec call o) [] := by
  rw [evaluateIn_eq_foldIn h, foldlM_postorder, Functor.map_map]

end Effects

/-! ## Hooks that return their outcome -/

/-- Without effects, what comes after a computation comes after its outcome. -/
theorem bind_of_pure {α β : Type} (r : Except Fault α) (k : α → Except Fault β) :
    (bind (m := ExceptT Fault Id) r k : Except Fault β) = r >>= k := by
  cases r <;> rfl

theorem negationIn_outcome (o : Opset) (m : Membership) :
    negationIn (n := Id) HookCall.outcome o m = o.negation m := by
  unfold negationIn
  simp only [bind_of_pure]
  rfl

theorem joinIn_outcome (c : Connective) (o : Opset) (m k : Membership) :
    joinIn (n := Id) HookCall.outcome c o m k = c.under o m k := by
  rw [Connective.under_eq]
  unfold joinIn
  simp only [bind_of_pure]
  rfl

/-- **Evaluation with hooks that return their outcome is evaluation.** -/
theorem evaluateIn_outcome (x : Node) : x.evaluateIn (n := Id) HookCall.outcome = x.evaluate := by
  induction x with
  | atom m | labeled m _ => rfl
  | not x ih => simp only [evaluateIn, evaluate, bind_of_pure, ih, negationIn_outcome]
  | and x y ihx ihy | or x y ihx ihy =>
    simp only [evaluateIn, evaluate, bind_of_pure, ihx, ihy, joinIn_outcome]
    rfl
  | alternative s x ih => exact ih

/-! ## Hooks that log their calls -/

/-- A hook that logs its call, whether it returns or raises. -/
def record (c : HookCall) : ExceptT Fault (StateM (List HookCall)) Number :=
  ExceptT.mk fun log => (c.outcome, log ++ [c])

/-- What an evaluation with logged calls comes to, and its log. -/
def recorded (x : Node) : Except Fault Membership × List HookCall :=
  (x.evaluateIn record).run.run []

/-- What comes behind a degree, and nothing behind a fault. -/
def behind (r : Except Fault Number) (calls : Number → List HookCall) : List HookCall :=
  match r with
  | .ok a => calls a
  | .error _ => []

theorem behind_ok (a : Number) (calls : Number → List HookCall) : behind (.ok a) calls = calls a :=
  rfl

theorem behind_error (f : Fault) (calls : Number → List HookCall) : behind (.error f) calls = [] :=
  rfl

/-- The calls that a tree makes of the hooks of one operation set. -/
def calls (o : Opset) : Node → List HookCall
  | atom _ | labeled _ _ => []
  | not child => child.calls o ++ behind (child.fold o) fun a => [.negation o a]
  | and left right => left.calls o ++ behind (left.fold o) fun a =>
    right.calls o ++ behind (right.fold o) fun b => [.join .conjunction o a b]
  | or left right => left.calls o ++ behind (left.fold o) fun a =>
    right.calls o ++ behind (right.fold o) fun b => [.join .disjunction o a b]
  | alternative _ branch => branch.calls o

variable {o p : Opset} {x y : Node}

theorem calls_node (c : Connective) : (c.node x y).calls o = x.calls o ++ behind (x.fold o) fun a =>
    y.calls o ++ behind (y.fold o) fun b => [.join c o a b] := by cases c <;> rfl

/-- What comes after a computation that logs its calls logs behind them. -/
theorem run_bind_record {α β : Type} {r : ExceptT Fault (StateM (List HookCall)) α}
    {k : α → ExceptT Fault (StateM (List HookCall)) β} {log : List HookCall} :
    (r >>= k).run.run log = match r.run.run log with
      | (.ok a, log') => (k a).run.run log'
      | (.error f, log') => (.error f, log') := by
  rw [ExceptT.run_bind, StateT.run_bind]
  rcases r.run.run log with ⟨f | a, log'⟩ <;> rfl

/-- **The log of an evaluation** holds the calls of the tree; its outcome is that of the fold. -/
theorem run_foldIn (x : Node) (log : List HookCall) :
    (x.foldIn record o).run.run log = (x.fold o, log ++ x.calls o) := by
  induction x generalizing log with
  | atom m | labeled m _ =>
    rw [calls, List.append_nil]
    rfl
  | not x ih =>
    rw [foldIn, run_bind_record, ih, fold, calls]
    cases x.fold o with
    | error f =>
      rw [behind_error, List.append_nil]
      rfl
    | ok a =>
      rw [behind_ok, ← List.append_assoc]
      rfl
  | and x y ihx ihy | or x y ihx ihy =>
    rw [foldIn, run_bind_record, ihx, fold, calls]
    cases x.fold o with
    | error f =>
      rw [behind_error, List.append_nil]
      rfl
    | ok a =>
      dsimp only
      rw [run_bind_record, ihy, behind_ok, ← List.append_assoc]
      cases y.fold o with
      | error f =>
        rw [behind_error, List.append_nil]
        rfl
      | ok b =>
        rw [behind_ok, ← List.append_assoc]
        rfl
  | alternative s x ih => exact ih log

theorem recorded_eq (h : x.Uniform o) : x.recorded = (x.evaluate, x.calls o) := by
  rw [recorded, evaluateIn_eq_foldIn h, evaluate_eq_fold h, map_eq_pure_bind, run_bind_record,
    run_foldIn]
  cases x.fold o <;> rfl

/-! ## The order of the calls -/

/-- The fault of an outcome. -/
def fault? {α : Type} : Except Fault α → Option Fault
  | .ok _ => none
  | .error f => some f

/-- The call that an operation makes, and what comes of it: its hook, a function, applied to the
values of its operands. -/
inductive MakesCall (o : Opset) : Node → HookCall → Except Fault Number → Prop
  | negation {x m run} : o.negationHook = .function run → x.evaluate = .ok m →
      MakesCall o (.not x) (.negation o m.raw) (run m.raw)
  | join {c x y m k run} : c.slot o = .function run → x.evaluate = .ok m → y.evaluate = .ok k →
      MakesCall o (c.node x y) (.join c o m.raw k.raw) (run m.raw k.raw)

/-- The operations make one call each, in their order, up to and including the first that raises. -/
inductive CalledInOrder (o : Opset) : List Node → List HookCall → Option Fault → Prop
  | done : CalledInOrder o [] [] none
  | call {x xs c cs a f?} : MakesCall o x c (.ok a) → CalledInOrder o xs cs f? →
      CalledInOrder o (x :: xs) (c :: cs) f?
  | raise {x xs c f} : MakesCall o x c (.error f) → CalledInOrder o (x :: xs) [c] (some f)

namespace CalledInOrder

variable {xs ys : List Node} {cs ds : List HookCall} {f : Fault} {f? : Option Fault}

/-- Where nothing is raised, more operations make their calls behind. -/
theorem append (h : CalledInOrder o xs cs none) (h' : CalledInOrder o ys ds f?) :
    CalledInOrder o (xs ++ ys) (cs ++ ds) f? := by
  generalize hnone : (none : Option Fault) = g? at h
  induction h with
  | done => exact h'
  | call hcall _ ih => exact .call hcall (ih hnone)
  | raise _ => cases hnone

/-- Behind what is raised, no operation makes a call. -/
theorem append_of_raised (h : CalledInOrder o xs cs (some f)) (ys : List Node) :
    CalledInOrder o (xs ++ ys) cs (some f) := by
  generalize hsome : some f = g? at h
  induction h with
  | done => cases hsome
  | call hcall _ ih => exact .call hcall (ih hsome)
  | raise hcall =>
    obtain rfl := Option.some.inj hsome
    exact .raise hcall

/-- Where nothing is raised, all operations have made their calls. -/
theorem forall₂ (h : CalledInOrder o xs cs none) :
    List.Forall₂ (fun x c => ∃ a, MakesCall o x c (.ok a)) xs cs := by
  generalize hnone : (none : Option Fault) = f? at h
  induction h with
  | done => exact .nil
  | call hcall _ ih => exact .cons ⟨_, hcall⟩ (ih hnone)
  | raise _ => cases hnone

/-- The call of one more operation. -/
theorem of_makesCall {x : Node} {c : HookCall} {r : Except Fault Number} (h : MakesCall o x c r) :
    CalledInOrder o [x] [c] (fault? r) := by
  cases r with
  | ok a => exact .call h .done
  | error f => exact .raise h

end CalledInOrder

theorem operations_not (x : Node) : (not x).operations = x.operations ++ [not x] := by
  simp [operations, postorder, isOperation]

theorem operations_node (c : Connective) (x y : Node) :
    (c.node x y).operations = x.operations ++ (y.operations ++ [c.node x y]) := by
  cases c <;> simp [operations, postorder, isOperation, Connective.node]

theorem operations_alternative (s : Side) (x : Node) :
    (alternative s x).operations = x.operations := by
  simp [operations, postorder, isOperation]

theorem evaluate_eq_ok (h : x.Uniform o) {a : Number} (ha : x.fold o = .ok a) :
    x.evaluate = .ok ⟨a, o⟩ := by
  rw [evaluate_eq_fold h, ha]
  rfl

/-- A negation calls its hook behind the calls of its operand. -/
theorem calledInOrder_not (hx : x.Uniform o) (ho : o.isConcrete = true)
    (h : CalledInOrder o x.operations (x.calls o) (fault? (x.fold o))) :
    CalledInOrder o (not x).operations ((not x).calls o) (fault? ((not x).fold o)) := by
  obtain ⟨run, hrun⟩ := (Opset.exists_hooks ho).1
  rw [operations_not, calls, fold]
  cases ha : x.fold o with
  | error f =>
    rw [ha] at h
    rw [behind_error, List.append_nil]
    exact h.append_of_raised _
  | ok a =>
    rw [ha] at h
    have hcall : MakesCall o (not x) (.negation o a) (run a) :=
      .negation hrun (evaluate_eq_ok hx ha)
    rw [← Opset.rawNot_eq hrun] at hcall
    exact h.append (.of_makesCall hcall)

/-- A node that joins calls its hook behind the calls of its operands, the left one's first. -/
theorem calledInOrder_node (c : Connective) (hx : x.Uniform o) (hy : y.Uniform o)
    (ho : o.isConcrete = true)
    (ihx : CalledInOrder o x.operations (x.calls o) (fault? (x.fold o)))
    (ihy : CalledInOrder o y.operations (y.calls o) (fault? (y.fold o))) :
    CalledInOrder o (c.node x y).operations ((c.node x y).calls o)
      (fault? ((c.node x y).fold o)) := by
  obtain ⟨run, hrun⟩ := (Opset.exists_hooks ho).2 c
  rw [operations_node, calls_node, fold_node]
  cases ha : x.fold o with
  | error f =>
    rw [ha] at ihx
    rw [behind_error, List.append_nil]
    exact ihx.append_of_raised _
  | ok a =>
    rw [ha] at ihx
    refine ihx.append ?_
    cases hb : y.fold o with
    | error f =>
      rw [hb] at ihy
      rw [behind_ok, behind_error, List.append_nil]
      exact ihy.append_of_raised _
    | ok b =>
      rw [hb] at ihy
      have hcall : MakesCall o (c.node x y) (.join c o a b) (run a b) :=
        .join hrun (evaluate_eq_ok hx ha) (evaluate_eq_ok hy hb)
      rw [← Connective.hook_eq hrun] at hcall
      exact ihy.append (.of_makesCall hcall)

/-- **The calls of a tree are in the order of its operations**, up to the first that raises. -/
theorem calledInOrder_calls (h : x.Uniform o) (ho : o.isConcrete = true) :
    CalledInOrder o x.operations (x.calls o) (fault? (x.fold o)) := by
  induction x with
  | atom m | labeled m _ => exact .done
  | not x ih => exact calledInOrder_not h ho (ih h)
  | and x y ihx ihy =>
    obtain ⟨hx, hy⟩ := uniform_and.mp h
    exact calledInOrder_node .conjunction hx hy ho (ihx hx) (ihy hy)
  | or x y ihx ihy =>
    obtain ⟨hx, hy⟩ := uniform_or.mp h
    exact calledInOrder_node .disjunction hx hy ho (ihx hx) (ihy hy)
  | alternative s x ih =>
    rw [operations_alternative]
    exact ih h

/-! ## Other hooks -/

/-- The tree with other operation sets at its leaves. -/
def mapOpset (g : Opset → Opset) : Node → Node
  | atom value => atom ⟨value.raw, g value.opset⟩
  | labeled value label => labeled ⟨value.raw, g value.opset⟩ label
  | not child => not (child.mapOpset g)
  | and left right => and (left.mapOpset g) (right.mapOpset g)
  | or left right => or (left.mapOpset g) (right.mapOpset g)
  | alternative side branch => alternative side (branch.mapOpset g)

theorem uniform_mapOpset (p : Opset) (x : Node) : (x.mapOpset fun _ => p).Uniform p := by
  induction x with
  | atom m | labeled m _ => exact fun k hk => by rw [List.mem_singleton.mp hk]
  | not x ih => exact ih
  | and x y ihx ihy => exact uniform_and.mpr ⟨ihx, ihy⟩
  | or x y ihx ihy => exact uniform_or.mpr ⟨ihx, ihy⟩
  | alternative s x ih => exact ih

theorem fold_mapOpset (g : Opset → Opset) (x : Node) : (x.mapOpset g).fold p = x.fold p := by
  induction x with
  | atom m | labeled m _ => rfl
  | not x ih => rw [mapOpset, fold, fold, ih]
  | and x y ihx ihy | or x y ihx ihy => rw [mapOpset, fold, fold, ihx, ihy]
  | alternative s x ih => exact ih

/-- **Text does not depend on any hook.** -/
theorem render_mapOpset (g : Opset → Opset) (x : Node) : (x.mapOpset g).render = x.render := by
  induction x with
  | atom m | labeled m _ => rfl
  | not x ih => rw [mapOpset, render, render, ih]
  | and x y ihx ihy | or x y ihx ihy => rw [mapOpset, render, render, ihx, ihy]
  | alternative s x ih => exact ih

/-- **The footprint does not depend on any hook.** -/
theorem footprint_mapOpset (g : Opset → Opset) (x : Node) :
    (x.mapOpset g).footprint = x.footprint := by
  induction x with
  | atom m | labeled m _ => rfl
  | not x ih => exact ih
  | and x y ihx ihy | or x y ihx ihy => rw [mapOpset, footprint, footprint, ihx, ihy]
  | alternative s x ih => exact ih

/-- Hooks that do the same at the calls of a tree give it the same degree. -/
theorem fold_congr (h : ∀ c ∈ x.calls o, (c.moved p).outcome = c.outcome) :
    x.fold p = x.fold o := by
  have hnode : ∀ (c : Connective) (x y : Node),
      (∀ d ∈ (c.node x y).calls o, (d.moved p).outcome = d.outcome) →
      ((∀ d ∈ x.calls o, (d.moved p).outcome = d.outcome) → x.fold p = x.fold o) →
      ((∀ d ∈ y.calls o, (d.moved p).outcome = d.outcome) → y.fold p = y.fold o) →
      (c.node x y).fold p = (c.node x y).fold o := by
    intro c x y h ihx ihy
    rw [calls_node] at h
    obtain ⟨hx, h⟩ := List.forall_mem_append.mp h
    rw [fold_node, fold_node, ihx hx]
    cases ha : x.fold o with
    | error f => rfl
    | ok a =>
      rw [ha] at h
      obtain ⟨hy, h⟩ := List.forall_mem_append.mp h
      rw [ihy hy]
      cases hb : y.fold o with
      | error f => rfl
      | ok b =>
        rw [hb] at h
        exact h _ List.mem_cons_self
  induction x with
  | atom m | labeled m _ => rfl
  | not x ih =>
    obtain ⟨hx, h⟩ := List.forall_mem_append.mp h
    rw [fold, fold, ih hx]
    cases ha : x.fold o with
    | error f => rfl
    | ok a =>
      rw [ha] at h
      exact h _ List.mem_cons_self
  | and x y ihx ihy => exact hnode .conjunction x y h ihx ihy
  | or x y ihx ihy => exact hnode .disjunction x y h ihx ihy
  | alternative s x ih => exact ih h

/-- **An evaluation calls the hook of every operation.**  Of a tree under a concrete operation set,
whatever its hooks return or raise:

* the log of an evaluation that logs its calls holds one call for each operation in post-order, of
  its own hook with the values of its operands, up to and including the first that raises; what that
  one raises is what the evaluation raises, and if none raises, all operations have made their
  calls;
* hooks that do the same at the calls of the log, and anything elsewhere, give the same evaluation;
* with hooks of any effects, evaluation is the run of the nodes in post-order on a stack.

Evaluation with logged calls, or with calls of any effects, is the one that runs, with its hooks
called in another way.  The text and the footprint of any tree are the same whatever the hooks
are. -/
theorem evaluation_calls_every_hook :
    (∀ x : Node, x.evaluateIn (n := Id) HookCall.outcome = x.evaluate) ∧
    (∀ {F : OpsetFamily} {x : Node}, Built F x → x.opset.isConcrete = true →
      x.recorded.1 = x.evaluate ∧
      CalledInOrder x.opset x.operations x.recorded.2 (fault? x.evaluate) ∧
      (∀ v, x.evaluate = .ok v →
        List.Forall₂ (fun y c => ∃ a, MakesCall x.opset y c (.ok a)) x.operations x.recorded.2) ∧
      (∀ p : Opset, (∀ c ∈ x.recorded.2, (c.moved p).outcome = c.outcome) →
        (x.mapOpset fun _ => p).evaluate = x.evaluate.map fun m => ⟨m.raw, p⟩) ∧
      ∀ {n : Type → Type} [Monad n] [LawfulMonad n] (call : HookCall → ExceptT Fault n Number),
        (fun m => [m.raw]) <$> x.evaluateIn call =
          x.postorder.foldlM (exec call x.opset) []) ∧
    ∀ (g : Opset → Opset) (x : Node),
      (x.mapOpset g).render = x.render ∧ (x.mapOpset g).footprint = x.footprint := by
  refine ⟨evaluateIn_outcome, fun {F x} hx ho => ?_,
    fun g x => ⟨render_mapOpset g x, footprint_mapOpset g x⟩⟩
  have hu : x.Uniform x.opset := hx.uniform.2
  have hrecorded := recorded_eq hu
  have hfold := evaluate_eq_fold hu
  have hfault : fault? x.evaluate = fault? (x.fold x.opset) := by
    rw [hfold]
    cases x.fold x.opset <;> rfl
  have horder : CalledInOrder x.opset x.operations x.recorded.2 (fault? x.evaluate) := by
    rw [hrecorded, hfault]
    exact calledInOrder_calls hu ho
  refine ⟨by rw [hrecorded], horder, fun v hv => ?_, fun p hp => ?_,
    fun call => evaluateIn_eq_foldlM hu⟩
  · rw [hv] at horder
    exact horder.forall₂
  · rw [hrecorded] at hp
    rw [evaluate_eq_fold (uniform_mapOpset p x), fold_mapOpset, fold_congr hp, hfold]
    cases x.fold x.opset <;> rfl

/-- An operation set that chooses, but whose negation raises. -/
def raising : Opset :=
  { choosing with
    id := 7
    className := "Raising"
    negationHook := .function fun _ => .error .divisionByZero }

/-- A conjunction whose left operand is zero, so that its degree could be told without the right
one. -/
def absorbedTree : Node :=
  .and (.atom ⟨.float .zero, raising⟩) (.not (.atom ⟨.float .one, raising⟩))

theorem built_absorbedTree : Built (.ofList [raising] (by decide)) absorbedTree := by
  have hleaf : ∀ x : Binary64, Built (.ofList [raising] (by decide)) (.atom ⟨.float x, raising⟩) :=
    fun x => .atom List.mem_cons_self
  exact .conjoin (hleaf .zero) (.negate (hleaf .one)) rfl

/-- The tree whose left operand is zero calls the hook of its right operand, which raises; the tree
that chooses calls both of its hooks. -/
theorem absorbedTree_calls_every_hook :
    absorbedTree.evaluate = .error .divisionByZero ∧
    absorbedTree.recorded.2 = [.negation raising (.float .one)] ∧
    CalledInOrder raising absorbedTree.operations absorbedTree.recorded.2 (some .divisionByZero) ∧
    (∃ v, choosingTree.evaluate = .ok v) ∧ choosingTree.recorded.2.length = 2 ∧
    List.Forall₂ (fun y c => ∃ a, MakesCall choosing y c (.ok a)) choosingTree.operations
      choosingTree.recorded.2 := by
  obtain ⟨-, horder, -⟩ := evaluation_calls_every_hook.2.1 built_absorbedTree rfl
  obtain ⟨-, -, hall, -⟩ := evaluation_calls_every_hook.2.1 built_choosingTree rfl
  exact ⟨rfl, rfl, horder, ⟨_, rfl⟩, rfl, hall _ rfl⟩

end Node

end FuzzyLogic
