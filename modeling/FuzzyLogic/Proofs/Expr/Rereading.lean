import FuzzyLogic.Proofs.Formula.Assembly

/-!
# Proofs/Expr/Rereading — a rendered tree, read again

The text of a tree without labels is a formula of literals, and compiling it gives the tree back but
for its alternatives, which leave no trace in the text: `Node.resolve` puts each one's branch in its
place.  The way is through the canonical text: rendering a tree writes the canonical text of a
formula whose instance is the resolved tree (`Plain.exists_formula`).

**One degree is lost.**  Negative zero lies in `[0, 1]` and is accepted, but it is written `-0`, and
no formula has a `-` in it.  A rendered tree therefore reads back exactly when none of its degrees is
negative zero.
-/

namespace FuzzyLogic

/-- Negative zero. -/
def Binary64.negativeZero : Binary64 := .signed true .zero

namespace Node

/-! ## Trees without alternatives -/

/-- The tree with its branch in place of every alternative. -/
def resolve : Node → Node
  | atom value => atom value
  | labeled value label => labeled value label
  | not child => not child.resolve
  | and left right => and left.resolve right.resolve
  | or left right => or left.resolve right.resolve
  | alternative _ branch => branch.resolve

theorem opset_resolve (x : Node) : x.resolve.opset = x.opset := by
  induction x with
  | atom | labeled => rfl
  | not x ih => exact ih
  | and x y ihx _ | or x y ihx _ => exact ihx
  | alternative side x ih => exact ih

/-- An alternative evaluates as its branch. -/
theorem evaluate_resolve (x : Node) : x.resolve.evaluate = x.evaluate := by
  induction x with
  | atom | labeled => rfl
  | not x ih => rw [resolve, evaluate, evaluate, ih, opset_resolve]
  | and x y ihx ihy | or x y ihx ihy =>
    rw [resolve, evaluate, evaluate, ihx, ihy, opset_resolve]
  | alternative side x ih => exact ih

/-- An alternative is written as its branch. -/
theorem render_resolve (x : Node) : x.resolve.render = x.render := by
  induction x with
  | atom | labeled => rfl
  | not x ih => rw [resolve, render, render, ih]
  | and x y ihx ihy | or x y ihx ihy => rw [resolve, render, render, ihx, ihy]
  | alternative side x ih => exact ih

/-! ## Trees of validated leaves -/

/-- Trees of negations, conjunctions, disjunctions and alternatives over leaves without labels, whose
degrees have been validated or fitted under one operation set. -/
inductive Plain (o : Opset) : Node → Prop
  | of {raw : Number} {m : Membership} : Membership.of raw o = .ok m → Plain o (.atom m)
  | fit {raw : Number} {m : Membership} : Membership.fit raw o = .ok m → Plain o (.atom m)
  | not {x : Node} : Plain o x → Plain o (.not x)
  | and {x y : Node} : Plain o x → Plain o y → Plain o (.and x y)
  | or {x y : Node} : Plain o x → Plain o y → Plain o (.or x y)
  | alternative {x : Node} (side : Side) : Plain o x → Plain o (.alternative side x)

variable {o : Opset} {x : Node} {m : Membership}

/-- A fitted degree is a validated one. -/
theorem exists_of_of_fit {raw : Number} (h : Membership.fit raw o = .ok m) :
    ∃ d, Membership.of d o = .ok m := by
  obtain ⟨d, -, hd⟩ := Outcome.bind_eq_ok.mp h
  split at hd
  case isTrue =>
    obtain ⟨_, hthrow, -⟩ := Outcome.bind_eq_ok.mp hd
    exact nomatch hthrow
  case isFalse => exact ⟨_, hd⟩

/-- Degrees are nonnegative magnitudes up to one, but for negative zero. -/
theorem eq_signed_false_of_isDegree {d : Binary64} (h : d.isDegree = true)
    (hne : d ≠ .negativeZero) : ∃ m : Magnitude, d = .signed false m ∧ m.value ≤ 1 := by
  obtain ⟨hnan, h₀, h₁⟩ := Binary64.isDegree_iff.mp h
  rcases d with _ | ⟨_ | _, m⟩
  · exact absurd rfl hnan
  · exact ⟨m, rfl, h₁⟩
  · rw [Binary64.value_signed_true] at h₀
    have hm : m.value = 0 := le_antisymm (by linarith) m.value_nonneg
    rw [Magnitude.value_eq_zero.mp hm] at hne
    exact absurd rfl hne

/-- A validated leaf is the instance of a literal, whose text it has. -/
theorem exists_literal {raw : Number} (h : Membership.of raw o = .ok m)
    (hne : m.raw ≠ .float .negativeZero) :
    ∃ f : Formula, f.Legible ∧ f.nameLeaves = [] ∧ f.canonical = (atom m).render ∧
      ∀ tree, f.instantiate o tree = atom m := by
  obtain ⟨d, hd, rfl⟩ := Membership.of_eq_ok h
  have hlegible := eq_signed_false_of_isDegree hd fun h => hne (congrArg Number.float h)
  exact ⟨.literal d 0, hlegible, rfl, rfl, fun _ => rfl⟩

/-- **A rendered tree is the canonical text of a formula**, and the formula's instance is the tree
without its alternatives. -/
theorem Plain.exists_formula (hx : Plain o x) (h : ∀ m ∈ x.leaves, m.raw ≠ .float .negativeZero) :
    ∃ f : Formula, f.Legible ∧ f.nameLeaves = [] ∧ f.canonical = x.render ∧
      ∀ tree, f.instantiate o tree = x.resolve := by
  induction hx with
  | of hm => exact exists_literal hm (h _ (List.mem_singleton_self _))
  | fit hm =>
    obtain ⟨d, hd⟩ := exists_of_of_fit hm
    exact exists_literal hd (h _ (List.mem_singleton_self _))
  | not _ ih =>
    obtain ⟨f, hf, hn, hc, hi⟩ := ih h
    exact ⟨.negation f, hf, hn, by rw [Formula.canonical, hc, render],
      fun tree => congrArg Node.not (hi tree)⟩
  | and _ _ ihx ihy =>
    obtain ⟨hl, hr⟩ := List.forall_mem_append.mp h
    obtain ⟨f, hf, hfn, hfc, hfi⟩ := ihx hl
    obtain ⟨g, hg, hgn, hgc, hgi⟩ := ihy hr
    exact ⟨.conjunction f g, ⟨hf, hg⟩, by rw [Formula.nameLeaves, hfn, hgn, List.append_nil],
      by rw [Formula.canonical, hfc, hgc, render],
      fun tree => congrArg₂ Node.and (hfi tree) (hgi tree)⟩
  | or _ _ ihx ihy =>
    obtain ⟨hl, hr⟩ := List.forall_mem_append.mp h
    obtain ⟨f, hf, hfn, hfc, hfi⟩ := ihx hl
    obtain ⟨g, hg, hgn, hgc, hgi⟩ := ihy hr
    exact ⟨.disjunction f g, ⟨hf, hg⟩, by rw [Formula.nameLeaves, hfn, hgn, List.append_nil],
      by rw [Formula.canonical, hfc, hgc, render],
      fun tree => congrArg₂ Node.or (hfi tree) (hgi tree)⟩
  | alternative _ _ ih => exact ih h

/-! ## The sign that no formula has -/

/-- What a leaf is written with is in the text of the tree. -/
theorem Plain.mem_render (hx : Plain o x) {c : Char} (hm : m ∈ x.leaves)
    (hc : c ∈ m.text.toList) : c ∈ x.render.toList := by
  induction hx with
  | of | fit => rwa [List.mem_singleton.mp hm] at hc
  | not _ ih =>
    have h := ih hm
    simp [render, h]
  | and _ _ ihx ihy | or _ _ ihx ihy =>
    rcases List.mem_append.mp hm with hm | hm
    · have h := ihx hm
      simp [render, h]
    · have h := ihy hm
      simp [render, h]
  | alternative _ _ ih => exact ih hm

/-! ## Reading back -/

/-- **A rendered tree reads back, unless one of its degrees is negative zero.**  Of every tree of
validated leaves under one operation set:

* where no degree is negative zero its text compiles, and builds the tree without its alternatives,
  which evaluates to the same degree, or raises the same fault, and has the same text;
* where one is, its text is refused. -/
theorem rendered_tree_reads_back (hx : Plain o x) :
    ((∀ m ∈ x.leaves, m.raw ≠ .float .negativeZero) →
      ∃ c, Compiled.ofSource x.render = .ok c ∧
        (∀ scope, c.build scope (some o) = .ok x.resolve) ∧
        x.resolve.evaluate = x.evaluate ∧ x.resolve.render = x.render) ∧
    ((∃ m ∈ x.leaves, m.raw = .float .negativeZero) →
      ∃ refusal, Compiled.ofSource x.render = .error (.syntaxFault ⟨x.render, refusal⟩)) := by
  constructor
  · intro h
    obtain ⟨f, hf, hnames, hcanonical, hinstance⟩ := hx.exists_formula h
    obtain ⟨g, hg, hgf⟩ := Formula.exists_writes_canonical hf
    rw [hcanonical] at hg
    have hnone : g.names = [] := by
      rw [Formula.names_eq_of_unplaced_eq hgf, Formula.names, hnames]
      rfl
    have hbuild : ∀ tree, g.instantiate o tree = x.resolve := fun tree => by
      rw [← Formula.instantiate_unplaced, hgf, Formula.instantiate_unplaced, hinstance]
    refine ⟨⟨x.render, g⟩, Compiled.ofSource_eq_ok_iff.mpr ⟨rfl, hg⟩, fun scope => ?_,
      evaluate_resolve x, render_resolve x⟩
    rw [← hbuild fun _ => x]
    refine Compiled.build_of_bound hg.legible (fun n hn => ?_) (.inl rfl)
    rw [Compiled.names, hnone] at hn
    exact absurd hn List.not_mem_nil
  · rintro ⟨m, hm, hraw⟩
    have hminus : '-' ∈ m.text.toList := by
      rw [Membership.text, hraw]
      decide
    have hnone : ∀ f, ¬ Formula.Writes x.render f := by
      rintro f ⟨ts, hts, -⟩
      exact hts.stray_not_mem (by decide) (hx.mem_render hm hminus)
    obtain ⟨refusal, -, h⟩ := Compiled.ofSource_of_not_writes hnone
    exact ⟨refusal, h⟩

/-- A tree with an alternative, whose text is read back without it. -/
theorem alternative_reads_back : ∃ c,
    Compiled.ofSource "(1 | !0)" = .ok c ∧
    c.build (fun _ => none) (some choosing) =
      .ok (.or (.atom ⟨.float .one, choosing⟩) (.not (.atom ⟨.float .zero, choosing⟩))) := by
  have hone : Membership.of (.float .one) choosing = .ok ⟨.float .one, choosing⟩ := rfl
  have hclamped : Membership.clamped (.infinite true) = .zero := by decide +kernel
  have hzero : Membership.fit (.float (.infinite true)) choosing = .ok ⟨.float .zero, choosing⟩ := by
    change Membership.of (.float (Membership.clamped (.infinite true))) choosing = _
    rw [hclamped]
    rfl
  have hplain : Plain choosing (.or (.alternative .right (.atom ⟨.float .one, choosing⟩))
      (.not (.atom ⟨.float .zero, choosing⟩))) :=
    .or (.alternative .right (.of hone)) (.not (.fit hzero))
  obtain ⟨c, hc, hbuild, -⟩ := (rendered_tree_reads_back hplain).1 fun m hm => by
    simp only [leaves, List.mem_append, List.mem_singleton] at hm
    rcases hm with rfl | rfl <;> decide
  have htext : render (.or (.alternative .right (.atom ⟨.float .one, choosing⟩))
      (.not (.atom ⟨.float .zero, choosing⟩))) = "(1 | !0)" := by decide +kernel
  rw [htext] at hc
  exact ⟨c, hc, hbuild _⟩

/-- Negative zero is accepted as a degree, and its text is refused at the sign. -/
theorem negative_zero_reads_not_back :
    Membership.of (.float .negativeZero) Catalogue.hamacher1 =
      .ok ⟨.float .negativeZero, Catalogue.hamacher1⟩ ∧
    (atom ⟨.float .negativeZero, Catalogue.hamacher1⟩).render = "-0" ∧
    Compiled.ofSource "-0" = .error (.syntaxFault ⟨"-0", ⟨.strayCharacter '-', 0⟩⟩) := by
  have hscan : Token.scan 0 "-0".toList = .error ⟨.strayCharacter '-', 0⟩ := by
    rw [show "-0".toList = ['-', '0'] from rfl, Token.scan_nonblank (by decide)]
    rfl
  have hlexemes : lexemes "-0" = .error ⟨"-0", ⟨.strayCharacter '-', 0⟩⟩ := by
    rw [lexemes, hscan]
    rfl
  refine ⟨rfl, by decide, ?_⟩
  rw [Compiled.ofSource, Formula.parse, hlexemes]
  rfl

end Node

end FuzzyLogic
