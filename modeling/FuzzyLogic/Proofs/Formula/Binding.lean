import FuzzyLogic.Proofs.Formula.Assembly

/-!
# Proofs/Formula/Binding — what building a formula comes to

Building binds the names in order of first appearance, settles the operation set of the literals,
and calls the combinators.  It makes the instance (`build_of_one_opset`), unless one of these stops
it:

* `build_of_misbound` — a name that is bound to nothing, or to what is no operand;
* `build_without_opset` — literals only, and no operation set;
* `build_of_many_opsets` — leaves of several operation sets, although each binary node only compares
  the leftmost leaves of its operands (`check_instantiate_eq_ok_iff`).

What is bound to other names does not matter (`buildWith_congr`).
-/

namespace FuzzyLogic

namespace Node

variable {x y : Node} {f : Fault}

/-- All that a check refuses is two operation sets. -/
theorem check_error (h : x.check = .error f) :
    ∃ operation left right, f = .opsetMismatch operation left right := by
  have hsame : ∀ {node : String} {o p : Opset}, checkSame node o p = .error f →
      ∃ operation left right, f = .opsetMismatch operation left right := by
    intro node o p h
    unfold checkSame at h
    split at h
    · cases h
    · exact ⟨_, _, _, (Except.error.inj h).symm⟩
  induction x with
  | atom | labeled => cases h
  | not x ih => exact ih h
  | and x y ihx ihy | or x y ihx ihy =>
    rcases Outcome.bind_eq_error.mp h with hx | ⟨_, -, h⟩
    · exact ihx hx
    rcases Outcome.bind_eq_error.mp h with hy | ⟨_, -, h⟩
    · exact ihy hy
    · exact hsame h
  | alternative side x ih => exact ih h

end Node

namespace Formula

variable {F : OpsetFamily} {o : Opset} {tree : String → Node} {f g : Formula}

/-- The operation sets of the leaves, from left to right: a name has that of its tree. -/
def leafOpsets (o : Opset) (tree : String → Node) : Formula → List Opset
  | name text _ => [(tree text).opset]
  | literal _ _ => [o]
  | negation operand => operand.leafOpsets o tree
  | conjunction left right | disjunction left right =>
    left.leafOpsets o tree ++ right.leafOpsets o tree

theorem opset_mem_leafOpsets (f : Formula) :
    (f.instantiate o tree).opset ∈ f.leafOpsets o tree := by
  induction f with
  | name | literal => exact List.mem_singleton_self _
  | negation f ih => exact ih
  | conjunction f g ihf _ | disjunction f g ihf _ => exact List.mem_append_left _ ihf

/-- Some leaf is a literal if none is a name. -/
theorem literals_ne_nil (h : f.nameLeaves = []) : f.literals ≠ [] := by
  induction f with
  | name text position => cases h
  | literal value position => exact List.cons_ne_nil _ _
  | negation f ih => exact ih h
  | conjunction f g ihf _ | disjunction f g ihf _ =>
    exact List.append_ne_nil_of_left_ne_nil (ihf (List.append_eq_nil_iff.mp h).1) _

/-- The leaves of a family's trees, and its literals, are of the family. -/
theorem mem_of_mem_leafOpsets (ho : F.mem o) (htree : ∀ n ∈ f.nameLeaves, F.mem (tree n).opset) :
    ∀ p ∈ f.leafOpsets o tree, F.mem p := by
  induction f with
  | name text position =>
    intro p hp
    rw [List.mem_singleton.mp hp]
    exact htree text (List.mem_singleton_self text)
  | literal value position =>
    intro p hp
    rwa [List.mem_singleton.mp hp]
  | negation f ih => exact ih htree
  | conjunction f g ihf ihg | disjunction f g ihf ihg =>
    obtain ⟨hf, hg⟩ := List.forall_mem_append.mp htree
    exact List.forall_mem_append.mpr ⟨ihf hf, ihg hg⟩

/-- Two parts of one operation set each have one together exactly if they have the same. -/
theorem one_opset_append (ho : F.mem o)
    (htree : ∀ n ∈ f.nameLeaves ++ g.nameLeaves, F.mem (tree n).opset) :
    ((∀ p ∈ f.leafOpsets o tree, p = (f.instantiate o tree).opset) ∧
      (∀ p ∈ g.leafOpsets o tree, p = (g.instantiate o tree).opset) ∧
      (f.instantiate o tree).opset.same (g.instantiate o tree).opset = true) ↔
    ∀ p ∈ f.leafOpsets o tree ++ g.leafOpsets o tree, p = (f.instantiate o tree).opset := by
  obtain ⟨hf, hg⟩ := List.forall_mem_append.mp htree
  have hfmem := mem_of_mem_leafOpsets ho hf _ (opset_mem_leafOpsets f)
  have hgmem := mem_of_mem_leafOpsets ho hg _ (opset_mem_leafOpsets g)
  rw [List.forall_mem_append]
  constructor
  · rintro ⟨hfl, hgl, hsame⟩
    rw [F.eq_of_same hfmem hgmem hsame] at hfl ⊢
    exact ⟨hfl, hgl⟩
  · rintro ⟨hfl, hgl⟩
    have heq := hgl _ (opset_mem_leafOpsets g)
    refine ⟨hfl, ?_, ?_⟩
    · rwa [heq]
    · rw [heq]
      exact Opset.same_self _

/-- Pairwise checks amount to the leftmost leaf's operation set at all leaves. -/
theorem check_instantiate_eq_ok_iff_leftmost (ho : F.mem o)
    (htree : ∀ n ∈ f.nameLeaves, Node.Built F (tree n)) :
    (f.instantiate o tree).check = .ok () ↔
      ∀ p ∈ f.leafOpsets o tree, p = (f.instantiate o tree).opset := by
  induction f with
  | name text position =>
    exact iff_of_true (htree text (List.mem_singleton_self text)).check
      fun p hp => List.mem_singleton.mp hp
  | literal value position => exact iff_of_true rfl fun p hp => List.mem_singleton.mp hp
  | negation f ih => exact ih htree
  | conjunction f g ihf ihg =>
    obtain ⟨hf, hg⟩ := List.forall_mem_append.mp htree
    exact Node.check_and_eq_ok_iff.trans <| (and_congr (ihf hf) (and_congr_left' (ihg hg))).trans <|
      one_opset_append ho fun n hn => (htree n hn).uniform.1
  | disjunction f g ihf ihg =>
    obtain ⟨hf, hg⟩ := List.forall_mem_append.mp htree
    exact Node.check_or_eq_ok_iff.trans <| (and_congr (ihf hf) (and_congr_left' (ihg hg))).trans <|
      one_opset_append ho fun n hn => (htree n hn).uniform.1

/-- **Pairwise checks amount to one operation set at all leaves.** -/
theorem check_instantiate_eq_ok_iff (ho : F.mem o)
    (htree : ∀ n ∈ f.nameLeaves, Node.Built F (tree n)) :
    (f.instantiate o tree).check = .ok () ↔ ∃ p, ∀ q ∈ f.leafOpsets o tree, q = p := by
  rw [check_instantiate_eq_ok_iff_leftmost ho htree]
  constructor
  · exact fun h => ⟨_, h⟩
  · rintro ⟨p, hp⟩ q hq
    rw [hp q hq, hp _ (opset_mem_leafOpsets f)]

end Formula

namespace Compiled

variable {F : OpsetFamily} {c : Compiled} {scope : String → Option Operand}
  {tree : String → Node} {o : Opset} {given : Option Opset} {name : String}
  {before after : List String} {f : Fault}

/-! ## Binding names -/

/-- The first name that stands for nothing ends the binding. -/
theorem bindNames_of_misbound (hbefore : ∀ n ∈ before, ∃ x, c.resolve scope n = .ok x)
    (hname : c.resolve scope name = .error f) :
    bindNames (nodes scope) c (before ++ name :: after) = .error f := by
  induction before with
  | nil =>
    rw [List.nil_append, bindNames_cons, hname]
    rfl
  | cons n before ih =>
    obtain ⟨⟨x, hx⟩, hrest⟩ := List.forall_mem_cons.mp hbefore
    rw [List.cons_append, bindNames_cons, hx, ih hrest]
    rfl

/-! ## Building -/

/-- **The first name that stands for nothing is reported**, whatever comes after it. -/
theorem build_of_misbound (hnames : c.names = before ++ name :: after)
    (hbefore : ∀ n ∈ before, ∃ x, c.resolve scope n = .ok x)
    (hname : c.resolve scope name = .error f) : c.build scope given = .error f := by
  rw [build, buildWith, hnames, bindNames_of_misbound hbefore hname]
  rfl

/-- **Literals without operation set are refused** by the leftmost one. -/
theorem build_without_opset (scope : String → Option Operand) (hnames : c.names = []) :
    ∃ first rest, c.formula.literals = first :: rest ∧
      c.build scope none = .error (.literalWithoutOpset first.plainText) := by
  have hleaves : c.formula.nameLeaves = [] := by
    cases h : c.formula.nameLeaves with
    | nil => rfl
    | cons n ns =>
      have hmem : n ∈ c.names := List.mem_eraseDups.mpr (h ▸ List.mem_cons_self)
      exact absurd (hnames ▸ hmem) List.not_mem_nil
  obtain ⟨first, rest, hliterals⟩ :=
    List.exists_cons_of_ne_nil (Formula.literals_ne_nil hleaves)
  refine ⟨first, rest, hliterals, ?_⟩
  rw [build, buildWith, hnames, hliterals]
  rfl

section Trees

variable (htree : ∀ n ∈ c.names, Node.Built F (tree n)) (hgiven : ∀ o ∈ given, F.mem o)
  (ho : given = some o ∨ given = none ∧ c.names.head?.map (fun n => (tree n).opset) = some o)
include htree hgiven ho

/-- The instance passes its checks exactly if all leaves have one operation set. -/
theorem check_eq_ok_iff_one_opset :
    (c.formula.instantiate o tree).check = .ok () ↔
      ∃ p, ∀ q ∈ c.formula.leafOpsets o tree, q = p := by
  have hmem : F.mem o := by
    rcases ho with h | ⟨-, h⟩
    · exact hgiven o h
    · obtain ⟨n, hn, rfl⟩ := Option.map_eq_some_iff.mp h
      exact (htree n (List.mem_of_mem_head? hn)).uniform.1
  exact Formula.check_instantiate_eq_ok_iff hmem fun n hn => htree n (List.mem_eraseDups.mpr hn)

variable (hc : c.formula.Legible) (hresolve : ∀ n ∈ c.names, c.resolve scope n = .ok (tree n))
include hc hresolve

/-- **Leaves of one operation set make the instance.** -/
theorem build_of_one_opset (hone : ∃ p, ∀ q ∈ c.formula.leafOpsets o tree, q = p) :
    c.build scope given = .ok (c.formula.instantiate o tree) := by
  rw [build_of_trees hc hresolve (fun n hn => (htree n hn).check) ho,
    (check_eq_ok_iff_one_opset htree hgiven ho).mpr hone]
  rfl

/-- **Leaves of several operation sets are a mismatch.** -/
theorem build_of_many_opsets (hmany : ¬ ∃ p, ∀ q ∈ c.formula.leafOpsets o tree, q = p) :
    ∃ operation left right,
      c.build scope given = .error (.opsetMismatch operation left right) := by
  obtain ⟨f, hf⟩ := Outcome.exists_error fun u hu =>
    hmany ((check_eq_ok_iff_one_opset htree hgiven ho).mp hu)
  obtain ⟨operation, left, right, rfl⟩ := Node.check_error hf
  refine ⟨operation, left, right, ?_⟩
  rw [build_of_trees hc hresolve (fun n hn => (htree n hn).check) ho, hf]
  rfl

end Trees

/-! ## Other names -/

variable {m : Type → Type} {α : Type} [Monad m] [MonadExcept Fault m] {B B' : Builder m α}

theorem bindNames_congr {names : List String} (h : ∀ n ∈ names, B.operand? n = B'.operand? n) :
    bindNames B c names = bindNames B' c names := by
  induction names with
  | nil => rfl
  | cons n names ih =>
    obtain ⟨hn, hrest⟩ := List.forall_mem_cons.mp h
    rw [bindNames, bindNames, hn, ih hrest]

/-- **Only the names of the formula matter**: builders that bind these alike, and join alike, build
alike. -/
theorem buildWith_congr (literal : Option (Binary64 → m α)) (ofOperand : α → m (Binary64 → m α))
    (hbind : ∀ n ∈ c.names, B.operand? n = B'.operand? n)
    (hmeaning : ∀ bound literal, meaning B bound literal = meaning B' bound literal) :
    c.buildWith B literal ofOperand = c.buildWith B' literal ofOperand := by
  simp only [buildWith, bindNames_congr hbind, hmeaning]

end Compiled

end FuzzyLogic
