import FuzzyLogic.Proofs.Expr.Rebuilding
import FuzzyLogic.Proofs.Text.Frame

/-!
# Proofs/Expr/Labelling — labels are for display only

Leaves are numbered from left to right, and a choice of labels puts a label on any of the plain ones:
`Node.relabel`.  No label reaches what is computed (`labels_are_display_only`): it stands in the text
in place of its leaf's number, and its bytes add to the footprint.

Both texts are one frame, `Node.frame`, whose gaps are the leaves; the two ways to fill it differ at
the leaves that get a label.
-/

namespace FuzzyLogic

open Text

/-- A leaf at its place among the leaves of a tree. -/
structure Place where
  index : Nat
  value : Membership
  label : Option Label

namespace Place

/-- What the leaf is written as. -/
def text (p : Place) : String :=
  match p.label with
  | some label => label.display
  | none => p.value.text

/-- The label that a choice puts on the leaf, which has none of its own. -/
def given (choice : Nat → Option Label) (p : Place) : Option Label :=
  match p.label with
  | some _ => none
  | none => choice p.index

/-- What the leaf is written as once it has the label that is given. -/
def textUnder (choice : Nat → Option Label) (p : Place) : String :=
  match p.given choice with
  | some label => label.display
  | none => p.text

end Place

namespace Node

variable {choice : Nat → Option Label} {first : Nat} {x y : Node}

/-- The tree with labels on plain leaves, which are numbered from `first` on. -/
def relabel (choice : Nat → Option Label) (first : Nat) : Node → Node
  | atom value =>
    match choice first with
    | some label => labeled value label
    | none => atom value
  | labeled value label => labeled value label
  | not child => not (child.relabel choice first)
  | and left right =>
    and (left.relabel choice first) (right.relabel choice (first + left.leaves.length))
  | or left right =>
    or (left.relabel choice first) (right.relabel choice (first + left.leaves.length))
  | alternative side branch => alternative side (branch.relabel choice first)

/-- The text of a tree with its leaves left open, which are numbered from `first` on. -/
def frame (first : Nat) : Node → Frame Place
  | atom value => [.gap ⟨first, value, none⟩]
  | labeled value label => [.gap ⟨first, value, some label⟩]
  | not child => .negation (child.frame first)
  | and left right =>
    .operation " & " (left.frame first) (right.frame (first + left.leaves.length))
  | or left right =>
    .operation " | " (left.frame first) (right.frame (first + left.leaves.length))
  | alternative _ branch => branch.frame first

/-- The labels that a choice puts on the leaves of a tree, from left to right. -/
def given (choice : Nat → Option Label) (first : Nat) (x : Node) : List Label :=
  (x.frame first).gaps.filterMap (Place.given choice)

/-! ## What does not see labels -/

/-- A leaf keeps its degree under a label. -/
theorem relabel_atom (choice : Nat → Option Label) (first : Nat) (value : Membership) :
    (atom value).relabel choice first = atom value ∨
      ∃ label, (atom value).relabel choice first = labeled value label := by
  rw [relabel]
  split
  case h_1 label _ => exact .inr ⟨label, rfl⟩
  case h_2 => exact .inl rfl

/-- What is asked of a leaf's degree alone has one answer with and without a label. -/
theorem relabel_atom_eq {α : Type} {ask : Node → α} (value : Membership)
    (hask : ∀ label, ask (labeled value label) = ask (atom value)) :
    ask ((atom value).relabel choice first) = ask (atom value) := by
  rcases relabel_atom choice first value with h | ⟨label, h⟩
  · rw [h]
  · rw [h, hask]

theorem opset_relabel (x : Node) : (x.relabel choice first).opset = x.opset := by
  induction x generalizing first with
  | atom value => exact relabel_atom_eq value fun _ => rfl
  | labeled => rfl
  | not x ih => exact ih
  | and x y ihx _ | or x y ihx _ => exact ihx
  | alternative side x ih => exact ih

theorem leaves_relabel (x : Node) : (x.relabel choice first).leaves = x.leaves := by
  induction x generalizing first with
  | atom value => exact relabel_atom_eq value fun _ => rfl
  | labeled => rfl
  | not x ih => exact ih
  | and x y ihx ihy | or x y ihx ihy => rw [relabel, leaves, leaves, ihx, ihy]
  | alternative side x ih => exact ih

theorem check_relabel (x : Node) : (x.relabel choice first).check = x.check := by
  induction x generalizing first with
  | atom value => exact relabel_atom_eq value fun _ => rfl
  | labeled => rfl
  | not x ih => exact ih
  | and x y ihx ihy | or x y ihx ihy =>
    rw [relabel, check, check, ihx, ihy, opset_relabel, opset_relabel]
  | alternative side x ih => exact ih

theorem evaluate_relabel (x : Node) : (x.relabel choice first).evaluate = x.evaluate := by
  induction x generalizing first with
  | atom value => exact relabel_atom_eq value fun _ => rfl
  | labeled => rfl
  | not x ih => rw [relabel, evaluate, evaluate, ih, opset_relabel]
  | and x y ihx ihy | or x y ihx ihy =>
    rw [relabel, evaluate, evaluate, ihx, ihy, opset_relabel]
  | alternative side x ih => exact ih

/-! ## Texts -/

/-- The gaps of the frame are the leaves of the tree. -/
theorem value_gaps_frame (x : Node) : (x.frame first).gaps.map Place.value = x.leaves := by
  induction x generalizing first with
  | atom | labeled => rfl
  | not x ih => exact ih
  | and x y ihx ihy | or x y ihx ihy =>
    rw [frame, Frame.gaps_operation, List.map_append, ihx, ihy, leaves]
  | alternative side x ih => exact ih

/-- They are numbered in order. -/
theorem index_gaps_frame (x : Node) :
    (x.frame first).gaps.map Place.index = List.range' first x.leaves.length := by
  induction x generalizing first with
  | atom | labeled => rfl
  | not x ih => exact ih
  | and x y ihx ihy | or x y ihx ihy =>
    rw [frame, Frame.gaps_operation, List.map_append, ihx, ihy, leaves, List.length_append,
      List.range'_append_1]
  | alternative side x ih => exact ih

theorem render_eq_fill (x : Node) : x.render = (x.frame first).fill Place.text := by
  induction x generalizing first with
  | atom | labeled => simp [render, frame, Frame.fill, Place.text]
  | not x ih => rw [render, frame, Frame.fill_negation, ← ih]
  | and x y ihx ihy | or x y ihx ihy => rw [render, frame, Frame.fill_operation, ← ihx, ← ihy]
  | alternative side x ih => exact ih

/-- **In the text a label stands in place of its leaf's number.** -/
theorem render_relabel (x : Node) :
    (x.relabel choice first).render = (x.frame first).fill (Place.textUnder choice) := by
  induction x generalizing first with
  | atom value =>
    cases h : choice first <;>
      simp [relabel, h, render, frame, Frame.fill, Place.textUnder, Place.given, Place.text]
  | labeled => simp [relabel, render, frame, Frame.fill, Place.textUnder, Place.given, Place.text]
  | not x ih => rw [relabel, render, frame, Frame.fill_negation, ih]
  | and x y ihx ihy | or x y ihx ihy =>
    rw [relabel, render, frame, Frame.fill_operation, ihx, ihy]
  | alternative side x ih => exact ih

/-! ## Footprint -/

/-- The bytes of labels. -/
def payload : List Label → Nat
  | [] => 0
  | label :: labels => label.payload + payload labels

theorem payload_append (labels labels' : List Label) :
    payload (labels ++ labels') = payload labels + payload labels' := by
  induction labels with
  | nil => rw [List.nil_append, payload, Nat.zero_add]
  | cons label labels ih => rw [List.cons_append, payload, payload, ih, Nat.add_assoc]

/-- Tags own no bytes. -/
theorem payload_tags {labels : List Label} (h : ∀ label ∈ labels, ∃ tag, label = .tag tag) :
    payload labels = 0 := by
  induction labels with
  | nil => rfl
  | cons label labels ih =>
    obtain ⟨⟨tag, rfl⟩, hrest⟩ := List.forall_mem_cons.mp h
    rw [payload, ih hrest, Label.payload]

/-- **The footprint grows by the bytes of the labels.** -/
theorem footprint_relabel (x : Node) :
    (x.relabel choice first).footprint = x.footprint + payload (x.given choice first) := by
  induction x generalizing first with
  | atom value =>
    cases h : choice first <;>
      simp [relabel, h, footprint, given, frame, Frame.gaps, Place.given, payload]
  | labeled => rfl
  | not x ih => exact ih
  | and x y ihx ihy | or x y ihx ihy =>
    rw [relabel, footprint, footprint, ihx, ihy]
    simp only [given, frame, Frame.gaps_operation, List.filterMap_append, payload_append]
    omega
  | alternative side x ih => exact ih

/-- **Labels are for display only.**  Of a tree, and of what it becomes when any of its plain leaves
get labels:

* one can be built exactly when the other can, of leaves of whatever family, and is refused with the
  same fault when it cannot;
* they have one operation set and one evaluation, be it a degree or a fault;
* their texts are one frame around their leaves, filled at the leaves that get a label with the label
  in place of the number, and alike at all others;
* the footprint grows by the bytes of the labels, hence not at all when these are tags. -/
theorem labels_are_display_only (choice : Nat → Option Label) (x : Node) :
    (((x.relabel choice 0).rebuild = .ok (x.relabel choice 0) ↔ x.rebuild = .ok x) ∧
      (∀ f, (x.relabel choice 0).rebuild = .error f ↔ x.rebuild = .error f) ∧
      ∀ F : OpsetFamily, Built F (x.relabel choice 0) ↔ Built F x) ∧
    (x.relabel choice 0).opset = x.opset ∧ (x.relabel choice 0).evaluate = x.evaluate ∧
    ((x.frame 0).gaps.map Place.value = x.leaves ∧
      (x.frame 0).gaps.map Place.index = List.range' 0 x.leaves.length ∧
      x.render = (x.frame 0).fill Place.text ∧
      (x.relabel choice 0).render = (x.frame 0).fill (Place.textUnder choice)) ∧
    (x.relabel choice 0).footprint = x.footprint + payload (x.given choice 0) ∧
    ((∀ label ∈ x.given choice 0, ∃ tag, label = .tag tag) →
      (x.relabel choice 0).footprint = x.footprint) := by
  have hcheck : (x.relabel choice 0).check = x.check := check_relabel x
  obtain ⟨hok, herror⟩ := rebuild_alike hcheck
  have hbuilt : ∀ F : OpsetFamily, Built F (x.relabel choice 0) ↔ Built F x := fun F => by
    rw [built_iff, built_iff, hok, leaves_relabel]
  refine ⟨⟨hok, herror, hbuilt⟩, opset_relabel x, evaluate_relabel x, ⟨value_gaps_frame x,
    index_gaps_frame x, render_eq_fill x, render_relabel x⟩, footprint_relabel x, ?_⟩
  intro htags
  rw [footprint_relabel, payload_tags htags, Nat.add_zero]

/-- A tag for every plain leaf: of the two leaves only the second one gets it, and shows it. -/
theorem tagged_choosingTree :
    choosingTree.given (fun _ => some (.tag (.ofLetter 'B'))) 0 = [.tag (.ofLetter 'B')] ∧
    (choosingTree.relabel (fun _ => some (.tag (.ofLetter 'B'))) 0).render = "(a | !b)" ∧
    (choosingTree.relabel (fun _ => some (.tag (.ofLetter 'B'))) 0).footprint =
      choosingTree.footprint := by
  obtain ⟨-, -, -, -, -, hfootprint⟩ :=
    labels_are_display_only (fun _ => some (.tag (.ofLetter 'B'))) choosingTree
  refine ⟨rfl, by decide +kernel, hfootprint fun label hlabel => ?_⟩
  exact ⟨.ofLetter 'B', List.mem_singleton.mp hlabel⟩

end Node

end FuzzyLogic
