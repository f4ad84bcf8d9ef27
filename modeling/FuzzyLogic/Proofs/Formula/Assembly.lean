import FuzzyLogic.Proofs.Expr.Rebuilding
import FuzzyLogic.Proofs.Formula.Canonical

/-!
# Proofs/Formula/Assembly — building is making the tree by hand

By hand a tree is made along the grammar: an operand stands for its name, a literal is a leaf of the
operation set, and every operator is a call of its combinator on what its operands have become
(`Formula.ByHand`).  Building goes through the text, the formula and the bound names instead.

Both meet in `Formula.instantiate`, the formula with trees in place of its leaves:

* `assemble_eq_check`, `build_of_trees` — over trees building comes to the checks of the instance;
* `build_of_bound` — over operands of one operation set no check fails, so that building gives the
  instance;
* `byHand_iff` — by hand the instance is made, and no other tree;
* `fold_instantiate` — its degree is that of the formula, interpreted by the hooks over the degrees
  of the operands (`Formula.interpret`).
-/

namespace FuzzyLogic

namespace Formula

/-! ## A formula over trees and over degrees -/

/-- The formula with a tree for every name and a leaf for every literal. -/
def instantiate (o : Opset) (tree : String → Node) : Formula → Node
  | name text _ => tree text
  | literal value _ => .atom ⟨.float value, o⟩
  | negation operand => .not (operand.instantiate o tree)
  | conjunction left right => .and (left.instantiate o tree) (right.instantiate o tree)
  | disjunction left right => .or (left.instantiate o tree) (right.instantiate o tree)

/-- The degree of a formula by the hooks of an operation set, given the degrees of its names; the
left operand comes before the right one, and both before the hook. -/
def interpret (o : Opset) (degree : String → Except Fault Number) :
    Formula → Except Fault Number
  | name text _ => degree text
  | literal value _ => .ok (.float value)
  | negation operand => do o.rawNot (← operand.interpret o degree)
  | conjunction left right => do
    let a ← left.interpret o degree
    let b ← right.interpret o degree
    o.rawAnd a b
  | disjunction left right => do
    let a ← left.interpret o degree
    let b ← right.interpret o degree
    o.rawOr a b

/-- Trees as the combinators make them along the grammar, from a tree for every name and a leaf for
every literal. -/
inductive ByHand (o : Opset) (tree : String → Node) : Level → List Token → Node → Prop
  | disjunct {ts x} : ByHand o tree .conjunction ts x → ByHand o tree .disjunction ts x
  | or {ts us x y z op} : ByHand o tree .disjunction ts x → op.kind = .or →
      ByHand o tree .conjunction us y → x.disjoin y = .ok z →
      ByHand o tree .disjunction (ts ++ op :: us) z
  | conjunct {ts x} : ByHand o tree .negation ts x → ByHand o tree .conjunction ts x
  | and {ts us x y z op} : ByHand o tree .conjunction ts x → op.kind = .and →
      ByHand o tree .negation us y → x.conjoin y = .ok z →
      ByHand o tree .conjunction (ts ++ op :: us) z
  | not {ts x op} : op.kind = .not → ByHand o tree .negation ts x →
      ByHand o tree .negation (op :: ts) x.negate
  | operand {ts x} : ByHand o tree .primary ts x → ByHand o tree .negation ts x
  | name {t} : t.kind = .ident → ByHand o tree .primary [t] (tree t.text)
  | number {t value x} : t.kind = .number → IsDegreeNumeral t.text value →
      Node.ofDegree (.float value) o = .ok x → ByHand o tree .primary [t] x
  | parentheses {ts x opening closing} : opening.kind = .leftParen →
      ByHand o tree .disjunction ts x → closing.kind = .rightParen →
      ByHand o tree .primary (opening :: (ts ++ [closing])) x

variable {o : Opset} {tree : String → Node} {f g : Formula} {level : Level} {ts : List Token}

/-! ## Instances -/

theorem instantiate_unplaced (f : Formula) :
    f.unplaced.instantiate o tree = f.instantiate o tree := by
  induction f with
  | name | literal => rfl
  | negation f ih => rw [unplaced, instantiate, instantiate, ih]
  | conjunction f g ihf ihg | disjunction f g ihf ihg =>
    rw [unplaced, instantiate, instantiate, ihf, ihg]

/-- The leaves of an instance are those of the trees, and the literals. -/
theorem forall_leaves_instantiate {P : Membership → Prop}
    (htree : ∀ n ∈ f.nameLeaves, ∀ m ∈ (tree n).leaves, P m)
    (hliteral : ∀ value ∈ f.literals, P ⟨.float value, o⟩) :
    ∀ m ∈ (f.instantiate o tree).leaves, P m := by
  induction f with
  | name text position => exact htree text (List.mem_singleton_self text)
  | literal value position =>
    intro m hm
    rw [List.mem_singleton.mp hm]
    exact hliteral value (List.mem_singleton_self value)
  | negation f ih => exact ih htree hliteral
  | conjunction f g ihf ihg | disjunction f g ihf ihg =>
    obtain ⟨htf, htg⟩ := List.forall_mem_append.mp htree
    obtain ⟨hlf, hlg⟩ := List.forall_mem_append.mp hliteral
    exact List.forall_mem_append.mpr ⟨ihf htf hlf, ihg htg hlg⟩

/-- Over trees of one operation set a formula is a tree of that operation set. -/
theorem uniform_instantiate (h : ∀ n ∈ f.nameLeaves, (tree n).Uniform o) :
    (f.instantiate o tree).Uniform o :=
  forall_leaves_instantiate h fun _ _ => rfl

/-- The two operands of an operation carry one operation set. -/
theorem opset_instantiate (hf : ∀ n ∈ f.nameLeaves, (tree n).Uniform o)
    (hg : ∀ n ∈ g.nameLeaves, (tree n).Uniform o) :
    (f.instantiate o tree).opset = (g.instantiate o tree).opset :=
  (uniform_instantiate hf).opset_eq.trans (uniform_instantiate hg).opset_eq.symm

/-- **The hooks see a formula as they see its instance.** -/
theorem fold_instantiate (f : Formula) :
    (f.instantiate o tree).fold o = f.interpret o fun n => (tree n).fold o := by
  induction f with
  | name | literal => rfl
  | negation f ih => rw [instantiate, Node.fold, interpret, ih]
  | conjunction f g ihf ihg | disjunction f g ihf ihg =>
    rw [instantiate, Node.fold, interpret, ihf, ihg]

/-- Only the degrees of the names that appear matter. -/
theorem interpret_congr {degree degree' : String → Except Fault Number}
    (h : ∀ n ∈ f.nameLeaves, degree n = degree' n) : f.interpret o degree = f.interpret o degree' := by
  induction f with
  | name text position => exact h text (List.mem_singleton_self text)
  | literal => rfl
  | negation f ih => rw [interpret, interpret, ih h]
  | conjunction f g ihf ihg | disjunction f g ihf ihg =>
    obtain ⟨hf, hg⟩ := List.forall_mem_append.mp h
    rw [interpret, interpret, ihf hf, ihg hg]

/-! ## By hand -/

/-- A degree makes a leaf as it is. -/
theorem ofDegree_of_isDegree {value : Binary64} (h : value.isDegree = true) :
    Node.ofDegree (.float value) o = .ok (.atom ⟨.float value, o⟩) := by
  rw [Node.ofDegree, Membership.of, Number.toBinary64_float]
  exact congrArg (Except.map Node.atom) (if_pos h)

/-- What is made by hand is an instance of what the tokens derive. -/
theorem ByHand.exists_derives {z : Node} (h : ByHand o tree level ts z) :
    ∃ f, Derives level ts f ∧ z = f.instantiate o tree := by
  induction h with
  | disjunct _ ih => exact ih.imp fun _ => And.imp_left .disjunct
  | or _ hop _ hz ihx ihy =>
    obtain ⟨f, hf, rfl⟩ := ihx
    obtain ⟨g, hg, rfl⟩ := ihy
    exact ⟨disjunction f g, hf.or hop hg, (Node.disjoin_eq_ok_iff.mp hz).2⟩
  | conjunct _ ih => exact ih.imp fun _ => And.imp_left .conjunct
  | and _ hop _ hz ihx ihy =>
    obtain ⟨f, hf, rfl⟩ := ihx
    obtain ⟨g, hg, rfl⟩ := ihy
    exact ⟨conjunction f g, hf.and hop hg, (Node.conjoin_eq_ok_iff.mp hz).2⟩
  | not hop _ ih =>
    obtain ⟨f, hf, rfl⟩ := ih
    exact ⟨negation f, .not hop hf, rfl⟩
  | operand _ ih => exact ih.imp fun _ => And.imp_left .operand
  | name ht => exact ⟨_, .name ht, rfl⟩
  | number ht hvalue hx =>
    rw [ofDegree_of_isDegree (literalValue_of_isDegreeNumeral hvalue).2] at hx
    exact ⟨_, .number ht hvalue, (Except.ok.inj hx).symm⟩
  | parentheses hopening _ hclosing ih =>
    obtain ⟨f, hf, rfl⟩ := ih
    exact ⟨f, .parentheses hopening hf hclosing, rfl⟩

/-- What tokens derive is made by hand, since no combinator refuses. -/
theorem Derives.byHand (h : Derives level ts f) (hu : ∀ n ∈ f.nameLeaves, (tree n).Uniform o) :
    ByHand o tree level ts (f.instantiate o tree) := by
  induction h with
  | disjunct _ ih => exact .disjunct (ih hu)
  | or _ hop _ ihf ihg =>
    obtain ⟨hl, hr⟩ := List.forall_mem_append.mp hu
    exact .or (ihf hl) hop (ihg hr) (Node.disjoin_of_opset_eq (opset_instantiate hl hr))
  | conjunct _ ih => exact .conjunct (ih hu)
  | and _ hop _ ihf ihg =>
    obtain ⟨hl, hr⟩ := List.forall_mem_append.mp hu
    exact .and (ihf hl) hop (ihg hr) (Node.conjoin_of_opset_eq (opset_instantiate hl hr))
  | not hop _ ih => exact .not hop (ih hu)
  | operand _ ih => exact .operand (ih hu)
  | name ht => exact .name ht
  | number ht hvalue =>
    exact .number ht hvalue (ofDegree_of_isDegree (literalValue_of_isDegreeNumeral hvalue).2)
  | parentheses hopening _ hclosing ih => exact .parentheses hopening (ih hu) hclosing

/-- **By hand the instance of the formula is made, and no other tree.** -/
theorem byHand_iff (h : Derives .disjunction ts f) (hu : ∀ n ∈ f.nameLeaves, (tree n).Uniform o)
    {z : Node} : ByHand o tree .disjunction ts z ↔ z = f.instantiate o tree := by
  constructor
  · intro hz
    obtain ⟨g, hg, rfl⟩ := hz.exists_derives
    rw [h.unique hg]
  · rintro rfl
    exact h.byHand hu

/-! ## Assembling -/

/-- Literals of a legible formula are degrees. -/
theorem Legible.isDegree (hf : f.Legible) : ∀ value ∈ f.literals, value.isDegree = true := by
  induction f with
  | name => exact nofun
  | literal value position =>
    obtain ⟨m, rfl, hm⟩ := hf
    intro value hvalue
    rw [List.mem_singleton.mp hvalue]
    exact isDegree_signed_false.mpr hm
  | negation f ih => exact ih hf
  | conjunction f g ihf ihg | disjunction f g ihf ihg =>
    intro value hvalue
    exact (List.mem_append.mp hvalue).elim (ihf hf.1 value) (ihg hf.2 value)

/-- **The combinators, called part by part, come to the checks of the instance.** -/
theorem assemble_eq_check {scope : String → Option Operand} {bound : List (String × Node)}
    (hbound : ∀ n ∈ f.nameLeaves, bound.lookup n = some (tree n))
    (htree : ∀ n ∈ f.nameLeaves, (tree n).check = .ok ())
    (hf : ∀ value ∈ f.literals, value.isDegree = true) :
    f.assemble (Compiled.meaning (Compiled.nodes scope) bound (Compiled.literalNode o)) =
      (f.instantiate o tree).check.map fun _ => f.instantiate o tree := by
  induction f with
  | name text position =>
    have h := hbound text (List.mem_singleton_self text)
    rw [instantiate, htree text (List.mem_singleton_self text)]
    simp only [assemble, Compiled.meaning, h]
    rfl
  | literal value position => exact ofDegree_of_isDegree (hf value (List.mem_singleton_self value))
  | negation f ih =>
    rw [assemble, ih hbound htree hf, instantiate, Node.check]
    cases (f.instantiate o tree).check <;> rfl
  | conjunction f g ihf ihg =>
    obtain ⟨hbl, hbr⟩ := List.forall_mem_append.mp hbound
    obtain ⟨hul, hur⟩ := List.forall_mem_append.mp htree
    obtain ⟨hfl, hfr⟩ := List.forall_mem_append.mp hf
    rw [assemble, ihf hbl hul hfl, ihg hbr hur hfr, instantiate, Node.check]
    exact Node.join_checked (Node.conjoin_eq_check _ _)
  | disjunction f g ihf ihg =>
    obtain ⟨hbl, hbr⟩ := List.forall_mem_append.mp hbound
    obtain ⟨hul, hur⟩ := List.forall_mem_append.mp htree
    obtain ⟨hfl, hfr⟩ := List.forall_mem_append.mp hf
    rw [assemble, ihf hbl hul hfl, ihg hbr hur hfr, instantiate, Node.check]
    exact Node.join_checked (Node.disjoin_eq_check _ _)

end Formula

/-- The operands of an operation set, and the trees they stand for: a tree whose leaves carry it,
and the leaf of a fuzzy value of it. -/
inductive Operand.Under (o : Opset) : Operand → Node → Prop
  | node {x : Node} : x.Uniform o → Under o (.node x) x
  | value {m : Membership} : m.opset = o → Under o (.value m) (.atom m)

namespace Operand

variable {o : Opset} {operand : Operand} {x : Node}

theorem Under.toNode (h : operand.Under o x) (name : String) : operand.toNode name = .ok x := by
  cases h with
  | node _ => rfl
  | value _ => rfl

theorem Under.uniform (h : operand.Under o x) : x.Uniform o := by
  cases h with
  | node hx => exact hx
  | value hm =>
    intro m' hm'
    rw [List.mem_singleton.mp hm', hm]

end Operand

namespace Compiled

variable {source : String} {c : Compiled} {o : Opset} {scope : String → Option Operand}
  {tree : String → Node} {given : Option Opset}

/-- What a name stands for in a scope, or why it stands for nothing. -/
def resolve (c : Compiled) (scope : String → Option Operand) (name : String) : Except Fault Node :=
  match scope name with
  | none => .error (.unboundName name c.source c.names)
  | some operand => operand.toNode name

theorem bindNames_cons (names : List String) :
    bindNames (nodes scope) c (name :: names) = (do
      let x ← c.resolve scope name
      return (name, x) :: (← bindNames (nodes scope) c names)) := by
  rw [bindNames, resolve]
  simp only [nodes]
  cases scope name <;> rfl

/-- Names that all stand for trees are bound to them, in order. -/
theorem bindNames_of_resolve {names : List String}
    (h : ∀ n ∈ names, c.resolve scope n = .ok (tree n)) :
    bindNames (nodes scope) c names = .ok (names.map fun n => (n, tree n)) := by
  induction names with
  | nil => rfl
  | cons n names ih =>
    obtain ⟨hn, hrest⟩ := List.forall_mem_cons.mp h
    rw [bindNames_cons, hn, ih hrest]
    rfl

theorem lookup_map_pair {names : List String} {n : String} (hn : n ∈ names) :
    (names.map fun n => (n, tree n)).lookup n = some (tree n) := by
  induction names with
  | nil => exact absurd hn (List.not_mem_nil)
  | cons k names ih =>
    rw [List.map_cons, List.lookup_cons]
    by_cases h : n = k
    · simp [h]
    · rw [beq_eq_false_iff_ne.mpr h]
      exact ih ((List.mem_cons.mp hn).resolve_left h)

/-- **Over trees, building comes to the checks of the instance**, its literals of the operation set
that is given or else of the first name's tree. -/
theorem build_of_trees (hc : c.formula.Legible)
    (hresolve : ∀ n ∈ c.names, c.resolve scope n = .ok (tree n))
    (htree : ∀ n ∈ c.names, (tree n).check = .ok ())
    (ho : given = some o ∨ given = none ∧ c.names.head?.map (fun n => (tree n).opset) = some o) :
    c.build scope given =
      (c.formula.instantiate o tree).check.map fun _ => c.formula.instantiate o tree := by
  have hmem : ∀ n ∈ c.formula.nameLeaves, n ∈ c.names := fun n hn => List.mem_eraseDups.mpr hn
  have hassemble : c.formula.assemble
      (meaning (nodes scope) (c.names.map fun n => (n, tree n)) (literalNode o)) =
      (c.formula.instantiate o tree).check.map fun _ => c.formula.instantiate o tree :=
    Formula.assemble_eq_check (fun n hn => lookup_map_pair (hmem n hn))
      (fun n hn => htree n (hmem n hn)) hc.isDegree
  rw [build, buildWith, bindNames_of_resolve hresolve]
  rcases ho with rfl | ⟨rfl, hfirst⟩
  · exact hassemble
  · cases hnames : c.names with
    | nil =>
      rw [hnames] at hfirst
      cases hfirst
    | cons n names =>
      rw [hnames] at hassemble hfirst
      obtain rfl := Option.some.inj hfirst
      exact hassemble

/-- **Building gives the instance of the formula**: over operands of one operation set, which is
given or else that of the first name. -/
theorem build_of_bound (hc : c.formula.Legible)
    (hbound : ∀ n ∈ c.names, ∃ operand, scope n = some operand ∧ operand.Under o (tree n))
    (hgiven : given = some o ∨ given = none ∧ c.names ≠ []) :
    c.build scope given = .ok (c.formula.instantiate o tree) := by
  have hresolve : ∀ n ∈ c.names, c.resolve scope n = .ok (tree n) := fun n hn => by
    obtain ⟨operand, hscope, hunder⟩ := hbound n hn
    rw [resolve, hscope]
    exact hunder.toNode n
  have hu : ∀ n ∈ c.names, (tree n).Uniform o := fun n hn => by
    obtain ⟨operand, -, hunder⟩ := hbound n hn
    exact hunder.uniform
  have ho : given = some o ∨
      given = none ∧ c.names.head?.map (fun n => (tree n).opset) = some o := by
    refine hgiven.imp_right (And.imp_right fun hne => ?_)
    rw [List.head?_eq_some_head hne, Option.map_some, (hu _ (List.head_mem hne)).opset_eq]
  have hinstance : (c.formula.instantiate o tree).Uniform o :=
    Formula.uniform_instantiate fun n hn => hu n (List.mem_eraseDups.mpr hn)
  rw [build_of_trees hc hresolve (fun n hn => (hu n hn).check) ho, hinstance.check]
  rfl

theorem map_raw_tagged (o : Opset) (r : Except Fault Number) :
    (Node.tagged o r).map (·.raw) = r := by
  cases r <;> rfl

/-- **Building is making the tree by hand.**  Of every text that compiles, and every binding of its
names to operands of an operation set, which is given or left to the operands:

* building succeeds, with the one tree that the combinators make along the grammar, from the tokens
  of the text, the operands and the literals as leaves of the operation set;
* its evaluation is the interpretation of the formula by the hooks over the degrees of the operands,
  the same degree tagged with the operation set or the same fault. -/
theorem build_is_by_hand (hc : ofSource source = .ok c)
    (hbound : ∀ n ∈ c.names, ∃ operand, scope n = some operand ∧ operand.Under o (tree n))
    (hgiven : given = some o ∨ given = none ∧ c.names ≠ []) :
    ∃ z, c.build scope given = .ok z ∧
      (∃ ts, lexemes source = .ok ts ∧
        ∀ y, Formula.ByHand o tree .disjunction ts y ↔ y = z) ∧
      z.evaluate = Node.tagged o
        (c.formula.interpret o fun n => (tree n).evaluate.map (·.raw)) := by
  have hu : ∀ n ∈ c.formula.nameLeaves, (tree n).Uniform o := fun n hn => by
    obtain ⟨operand, -, hunder⟩ := hbound n (List.mem_eraseDups.mpr hn)
    exact hunder.uniform
  obtain ⟨-, ts, hts, hf⟩ := ofSource_eq_ok_iff.mp hc
  refine ⟨c.formula.instantiate o tree, build_of_bound (legible_of_ofSource hc) hbound hgiven,
    ⟨ts, Formula.lexemes_eq_ok_iff.mpr hts, fun y => Formula.byHand_iff hf hu⟩, ?_⟩
  rw [Node.evaluate_eq_fold (Formula.uniform_instantiate hu), Formula.fold_instantiate]
  refine congrArg (Node.tagged o) (Formula.interpret_congr fun n hn => ?_)
  rw [Node.evaluate_eq_fold (hu n hn), map_raw_tagged]

/-- The text `!a | 0.5` over an alternative, its operation set left to the operand. -/
theorem build_notA_or_half_by_hand :
    ∃ c z, ofSource "!a | 0.5" = .ok c ∧ c.names ≠ [] ∧
      c.build (fun _ => some (.node (.alternative .left (.atom ⟨.float .one, Node.choosing⟩))))
        none = .ok z ∧
      (∃ ts, lexemes "!a | 0.5" = .ok ts ∧ Formula.ByHand Node.choosing
        (fun _ => .alternative .left (.atom ⟨.float .one, Node.choosing⟩)) .disjunction ts z) ∧
      z.evaluate = .ok ⟨.float .one, Node.choosing⟩ := by
  have hnames : notAOrHalf.names ≠ [] := by decide
  have hu : Node.Uniform Node.choosing
      (.alternative .left (.atom ⟨.float .one, Node.choosing⟩)) := fun m hm => by
    rw [List.mem_singleton.mp hm]
  have hunder : ∀ _ : String, ∃ operand : Operand,
      some (.node (.alternative .left (.atom ⟨.float .one, Node.choosing⟩))) = some operand ∧
      operand.Under Node.choosing (.alternative .left (.atom ⟨.float .one, Node.choosing⟩)) :=
    fun _ => ⟨_, rfl, .node hu⟩
  obtain ⟨z, hz, ⟨ts, hts, hhand⟩, heval⟩ :=
    build_is_by_hand ofSource_notAOrHalf (fun n _ => hunder n) (.inr ⟨rfl, hnames⟩)
  refine ⟨_, z, ofSource_notAOrHalf, hnames, hz, ⟨ts, hts, (hhand z).mpr rfl⟩, ?_⟩
  have hdegree : Formula.interpret Node.choosing (fun _ => .ok (.float .one))
      notAOrHalf.formula = .ok (.float .one) := by decide +kernel
  exact heval.trans (congrArg (Node.tagged Node.choosing) hdegree)

end Compiled

end FuzzyLogic
