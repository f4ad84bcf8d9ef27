import FuzzyLogic.Proofs.Opset.CatalogueRange

/-!
# Proofs/Opset/Reach — the numbers that hooks come to

Hooks may fail on some numbers and work on others.  What an evaluation asks of them is less than
that they work on all: they are applied to degrees, and then to what they have returned.
`Opset.Reached` are the numbers they come to in this way, and an operation set is **quiet** if none
of its hooks raises on these.

Reached numbers are the smallest kind that hooks preserve, so that any kind of numbers that they
preserve, degrees among them, makes an operation set quiet (`quiet_of_preserves`).  Every validated
tree of a quiet operation set evaluates (`exists_evaluate`).
-/

namespace FuzzyLogic

namespace Opset

variable {o : Opset} {P : Number → Prop} {x : Number}

/-- The numbers that an operation set comes to from degrees on. -/
inductive Reached (o : Opset) : Number → Prop
  | degree {x : Binary64} : x.isDegree = true → Reached o (.float x)
  | negation {x y : Number} : Reached o x → o.rawNot x = .ok y → Reached o y
  | disjunction {a b y : Number} : Reached o a → Reached o b → o.rawOr a b = .ok y → Reached o y
  | conjunction {a b y : Number} : Reached o a → Reached o b → o.rawAnd a b = .ok y → Reached o y

/-- No hook raises on the numbers that an operation set comes to. -/
structure Quiet (o : Opset) : Prop where
  negation : ∀ {x}, o.Reached x → ∃ y, o.rawNot x = .ok y
  disjunction : ∀ {a b}, o.Reached a → o.Reached b → ∃ y, o.rawOr a b = .ok y
  conjunction : ∀ {a b}, o.Reached a → o.Reached b → ∃ y, o.rawAnd a b = .ok y

/-- Reached numbers are preserved by hooks that do not raise on them. -/
theorem Quiet.preserves (h : o.Quiet) : o.Preserves o.Reached where
  not hx := (h.negation hx).imp fun _ hy => ⟨hy, hx.negation hy⟩
  or ha hb := (h.disjunction ha hb).imp fun _ hy => ⟨hy, ha.disjunction hb hy⟩
  and ha hb := (h.conjunction ha hb).imp fun _ hy => ⟨hy, ha.conjunction hb hy⟩

/-- Every reached number is of a kind that the hooks preserve, if degrees are. -/
theorem Reached.of_preserves (hP : o.Preserves P)
    (hdegree : ∀ x : Binary64, x.isDegree = true → P (.float x)) (h : o.Reached x) : P x := by
  induction h with
  | degree hx => exact hdegree _ hx
  | negation _ hy ih =>
    obtain ⟨z, hz, hPz⟩ := hP.not ih
    rwa [← Except.ok.inj (hz.symm.trans hy)]
  | disjunction _ _ hy iha ihb =>
    obtain ⟨z, hz, hPz⟩ := hP.or iha ihb
    rwa [← Except.ok.inj (hz.symm.trans hy)]
  | conjunction _ _ hy iha ihb =>
    obtain ⟨z, hz, hPz⟩ := hP.and iha ihb
    rwa [← Except.ok.inj (hz.symm.trans hy)]

/-- Hooks that preserve some kind of numbers, degrees among them, are quiet. -/
theorem quiet_of_preserves (hP : o.Preserves P)
    (hdegree : ∀ x : Binary64, x.isDegree = true → P (.float x)) : o.Quiet where
  negation hx := (hP.not (hx.of_preserves hP hdegree)).imp fun _ => And.left
  disjunction ha hb :=
    (hP.or (ha.of_preserves hP hdegree) (hb.of_preserves hP hdegree)).imp fun _ => And.left
  conjunction ha hb :=
    (hP.and (ha.of_preserves hP hdegree) (hb.of_preserves hP hdegree)).imp fun _ => And.left

end Opset

/-- The operation sets of the catalogue are quiet. -/
theorem Catalogue.quiet_of_mem {o : Opset} (ho : o ∈ all) : o.Quiet :=
  Opset.quiet_of_preserves (preserves_of_mem ho) fun x hx => ⟨x, rfl, hx⟩

/-- **Every tree of a quiet operation set evaluates**, to a number that its hooks come to. -/
theorem Node.exists_evaluate {o : Opset} {x : Node} (ho : o.Quiet) (hx : x.Uniform o)
    (hleaves : ∀ m ∈ x.leaves, o.Reached m.raw) :
    ∃ d, x.evaluate = .ok ⟨d, o⟩ ∧ o.Reached d := by
  obtain ⟨d, hd, hreached⟩ := fold_preserves ho.preserves hleaves
  exact ⟨d, by rw [evaluate_eq_fold hx, hd]; rfl, hreached⟩

end FuzzyLogic
