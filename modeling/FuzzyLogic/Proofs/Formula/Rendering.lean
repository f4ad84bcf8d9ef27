import FuzzyLogic.Formula.Valuation
import FuzzyLogic.Proofs.Formula.Assembly
import FuzzyLogic.Proofs.Formula.Operands
import FuzzyLogic.Proofs.Text.Frame

/-!
# Proofs/Formula/Rendering — the text of a built tree is the canonical text

A formula and a tree are written by two printers.  They agree: `Formula.frame` is the canonical text
with its names left open, and building puts the texts of the operands there (`render_assemble`).

In a canonical text that was compiled the names can be told from the rest, since neither operators nor
numerals have letters in them.  So the text of the tree can also be had from the canonical text alone,
by `Token.replaceNames`, which knows nothing of formulas (`replaceNames_canonical`).
-/

namespace FuzzyLogic

open Text

/-! ## Names in a text -/

namespace Token

/-- A text with every identifier in it replaced; each is taken as long as it can be. -/
def replaceNames (write : String → String) : List Char → List Char
  | [] => []
  | c :: rest =>
    if isIdentStart c then
      (write (String.ofList (c :: rest.takeWhile isIdentChar))).toList ++
        replaceNames write (rest.dropWhile isIdentChar)
    else c :: replaceNames write rest
termination_by cs => cs.length
decreasing_by
  · exact Nat.lt_succ_of_le (List.dropWhile_sublist isIdentChar).length_le
  · exact Nat.lt_succ_self rest.length

variable {write : String → String} {c : Char} {cs ds rest text : List Char}

theorem replaceNames_nil : replaceNames write [] = [] := by rw [replaceNames]

theorem replaceNames_cons (h : isIdentStart c = false) :
    replaceNames write (c :: rest) = c :: replaceNames write rest := by
  rw [replaceNames, h]
  rfl

/-- Where no identifier begins nothing is replaced. -/
theorem replaceNames_plain (write : String → String) (rest : List Char)
    (h : ∀ c ∈ cs, isIdentStart c = false) :
    replaceNames write (cs ++ rest) = cs ++ replaceNames write rest := by
  induction cs with
  | nil => rfl
  | cons c cs ih =>
    obtain ⟨hc, hcs⟩ := List.forall_mem_cons.mp h
    rw [List.cons_append, replaceNames_cons hc, ih hcs, List.cons_append]

theorem replaceNames_identifier (write : String → String) (h : IsIdentifier text)
    (hrest : Stops isIdentChar rest) :
    replaceNames write (text ++ rest) =
      (write (String.ofList text)).toList ++ replaceNames write rest := by
  obtain ⟨c, cs, rfl, hc, hcs⟩ := h
  rw [List.cons_append, replaceNames, if_pos hc, takeWhile_run hcs hrest, dropWhile_run hcs hrest]

/-- A text becomes another one by replacing its names, before whatever does not prolong the last. -/
def Becomes (write : String → String) (cs ds : List Char) : Prop :=
  ∀ rest, Stops isIdentChar rest → replaceNames write (cs ++ rest) = ds ++ replaceNames write rest

theorem becomes_operation (symbol : Char) {cs' ds' : List Char}
    (hsymbol : isIdentStart symbol = false) (hcs : Becomes write cs cs')
    (hds : Becomes write ds ds') :
    Becomes write (Formula.operation symbol cs ds) (Formula.operation symbol cs' ds') := by
  intro rest _
  have hblank : isIdentStart ' ' = false := by decide
  simp only [Formula.operation, List.cons_append, List.append_assoc, List.nil_append]
  rw [replaceNames_cons (by decide), hcs _ (stops_cons.mpr (by decide)), replaceNames_cons hblank,
    replaceNames_cons hsymbol, replaceNames_cons hblank, hds _ (stops_cons.mpr (by decide)),
    replaceNames_cons (by decide)]

end Token

namespace Formula

variable {f g : Formula} {write : String → String}

/-! ## The frame of a formula -/

/-- The canonical text with its names left open. -/
def frame : Formula → Frame String
  | name text _ => [.gap text]
  | literal value _ => [.fixed value.plainText]
  | negation operand => .negation operand.frame
  | conjunction left right => .operation " & " left.frame right.frame
  | disjunction left right => .operation " | " left.frame right.frame

theorem gaps_frame (f : Formula) : f.frame.gaps = f.nameLeaves := by
  induction f with
  | name | literal => rfl
  | negation f ih => exact ih
  | conjunction f g ihf ihg | disjunction f g ihf ihg =>
    rw [frame, Frame.gaps_operation, ihf, ihg, nameLeaves]

theorem canonical_eq_fill (f : Formula) : f.canonical = f.frame.fill id := by
  induction f with
  | name | literal => simp [canonical, frame, Frame.fill]
  | negation f ih => rw [canonical, frame, Frame.fill_negation, ih]
  | conjunction f g ihf ihg | disjunction f g ihf ihg =>
    rw [canonical, frame, Frame.fill_operation, ihf, ihg]

/-- The numeral of a degree has no letters in it. -/
theorem isIdentStart_plainText {m : Magnitude} (h : m.value ≤ 1) :
    ∀ c ∈ (Binary64.signed false m).plainText.toList, Token.isIdentStart c = false := by
  have htop : m ≠ .top := by
    rintro rfl
    rw [Magnitude.value_top] at h
    exact absurd (Nat.cast_le_one.mp h) (by decide +kernel)
  obtain ⟨q, hq, -⟩ := Binary64.denotes_plainText htop
  exact fun c hc => Token.isIdentStart_eq_false (hq.digit_or_point c hc)

/-- **Replacing the names of a canonical text fills its frame**, where its names are identifiers. -/
theorem becomes_canonical (write : String → String) (hf : f.Legible) :
    Token.Becomes write f.canonical.toList (f.frame.fill write).toList := by
  induction f with
  | name text position =>
    intro rest hrest
    have h := Token.replaceNames_identifier write hf hrest
    simpa [canonical, frame, Frame.fill] using h
  | literal value position =>
    obtain ⟨m, rfl, hm⟩ := hf
    intro rest _
    have h := Token.replaceNames_plain write rest (isIdentStart_plainText hm)
    simpa [canonical, frame, Frame.fill] using h
  | negation f ih =>
    intro rest hrest
    have h := ih hf rest hrest
    have hsign : Token.isIdentStart '!' = false := by decide
    simpa [canonical, frame, Token.replaceNames_cons hsign] using h
  | conjunction f g ihf ihg =>
    have h := Token.becomes_operation '&' (by decide) (ihf hf.1) (ihg hf.2)
    simpa [canonical, frame, operation] using h
  | disjunction f g ihf ihg =>
    have h := Token.becomes_operation '|' (by decide) (ihf hf.1) (ihg hf.2)
    simpa [canonical, frame, operation] using h

/-- So the filled frame can be had from the canonical text alone. -/
theorem replaceNames_canonical (hf : f.Legible) :
    Token.replaceNames write f.canonical.toList = (f.frame.fill write).toList := by
  have h := becomes_canonical write hf [] stops_nil
  rwa [Token.replaceNames_nil, List.append_nil, List.append_nil] at h

/-! ## The text of a built tree -/

variable {scope : String → Option Operand} {bound : List (String × Node)} {tree : String → Node}
  {literal : Binary64 → Except Fault Node} {z : Node}

/-- **Building puts the texts of the operands into the frame.** -/
theorem render_assemble (hbound : ∀ n ∈ f.nameLeaves, bound.lookup n = some (tree n))
    (hliteral : ∀ value x, literal value = .ok x → x.render = value.plainText)
    (h : f.assemble (Compiled.meaning (Compiled.nodes scope) bound literal) = .ok z) :
    z.render = f.frame.fill fun n => (tree n).render := by
  induction f generalizing z with
  | name text position =>
    have hlookup := hbound text (List.mem_singleton_self text)
    simp only [assemble, Compiled.meaning, hlookup] at h
    obtain rfl : tree text = z := Except.ok.inj h
    simp [frame, Frame.fill]
  | literal value position =>
    rw [hliteral value z h]
    simp [frame, Frame.fill]
  | negation f ih =>
    obtain ⟨x, hx, h⟩ := Outcome.bind_eq_ok.mp h
    obtain rfl : x.negate = z := Except.ok.inj h
    rw [Node.negate, Node.render, ih hbound hx, frame, Frame.fill_negation]
  | conjunction f g ihf ihg =>
    obtain ⟨hl, hr⟩ := List.forall_mem_append.mp hbound
    obtain ⟨x, hx, h⟩ := Outcome.bind_eq_ok.mp h
    obtain ⟨y, hy, h⟩ := Outcome.bind_eq_ok.mp h
    obtain ⟨-, rfl⟩ := Node.conjoin_eq_ok_iff.mp h
    rw [Node.render, ihf hl hx, ihg hr hy, frame, Frame.fill_operation]
  | disjunction f g ihf ihg =>
    obtain ⟨hl, hr⟩ := List.forall_mem_append.mp hbound
    obtain ⟨x, hx, h⟩ := Outcome.bind_eq_ok.mp h
    obtain ⟨y, hy, h⟩ := Outcome.bind_eq_ok.mp h
    obtain ⟨-, rfl⟩ := Node.disjoin_eq_ok_iff.mp h
    rw [Node.render, ihf hl hx, ihg hr hy, frame, Frame.fill_operation]

end Formula

namespace Compiled

variable {c : Compiled} {scope : String → Option Operand} {given : Option Opset} {o : Opset}
  {z : Node}

/-- The leaf of a literal is written as the literal. -/
theorem render_literalNode {value : Binary64} {x : Node} (h : literalNode o value = .ok x) :
    x.render = value.plainText := by
  rw [literalNode, Node.ofDegree, Membership.of, Number.toBinary64_float] at h
  obtain ⟨m, hm, rfl⟩ := Outcome.map_eq_ok.mp h
  obtain ⟨d, hd, hm⟩ := Outcome.bind_eq_ok.mp hm
  obtain rfl : value = d := Except.ok.inj hd
  split at hm
  case isTrue =>
    obtain rfl := Except.ok.inj hm
    rfl
  case isFalse => cases hm

/-- What a build that succeeds has bound and assembled. -/
theorem exists_assemble_of_build (h : c.build scope given = .ok z) :
    ∃ bound literal, bindNames (nodes scope) c c.names = .ok bound ∧
      (∀ value x, literal value = .ok x → x.render = value.plainText) ∧
      c.formula.assemble (meaning (nodes scope) bound literal) = .ok z := by
  rw [build, buildWith] at h
  obtain ⟨bound, hbound, h⟩ := Outcome.bind_eq_ok.mp h
  cases given with
  | some o => exact ⟨bound, literalNode o, hbound, fun _ _ => render_literalNode, h⟩
  | none =>
    cases bound with
    | cons e rest => exact ⟨_, literalNode e.2.opset, hbound, fun _ _ => render_literalNode, h⟩
    | nil =>
      cases hliterals : c.formula.literals with
      | nil =>
        simp only [hliterals] at h
        refine ⟨[], fun _ => .error .undefinedOpset, hbound, fun value x hx => ?_, h⟩
        cases hx
      | cons value rest =>
        simp only [hliterals] at h
        cases h

/-- **The text of what is built is the frame, filled with the texts of the operands.** -/
theorem render_of_build (h : c.build scope given = .ok z) : ∃ tree : String → Node,
    (∀ n ∈ c.names, ∃ operand, scope n = some operand ∧ operand.toNode n = .ok (tree n)) ∧
      z.render = c.formula.frame.fill fun n => (tree n).render := by
  obtain ⟨bound, literal, hbound, hliteral, h⟩ := exists_assemble_of_build h
  have hoperand := lookup_of_bindNames hbound
  have hlookup : ∀ n ∈ c.names, bound.lookup n = some (treeOf z bound n) := by
    intro n hn
    obtain ⟨operand, x, -, -, hx⟩ := hoperand n hn
    exact lookup_eq_treeOf (Option.isSome_iff_exists.mpr ⟨x, hx⟩)
  refine ⟨treeOf z bound, fun n hn => ?_, ?_⟩
  · obtain ⟨operand, x, hscope, hnode, hx⟩ := hoperand n hn
    obtain rfl : x = treeOf z bound n := Option.some.inj (hx.symm.trans (hlookup n hn))
    exact ⟨operand, hscope, hnode⟩
  · exact Formula.render_assemble (fun n hn => hlookup n (List.mem_eraseDups.mpr hn)) hliteral h

/-- Where every operand is written as its name, the text of what is built is the canonical text. -/
theorem render_eq_canonical (h : c.build scope given = .ok z)
    (hnames : ∀ n ∈ c.names, ∀ operand x, scope n = some operand → operand.toNode n = .ok x →
      x.render = n) : z.render = c.canonical := by
  obtain ⟨tree, htree, hrender⟩ := render_of_build h
  rw [hrender, canonical, Formula.canonical_eq_fill]
  refine Frame.fill_congr fun n hn => ?_
  rw [Formula.gaps_frame] at hn
  obtain ⟨operand, hscope, hnode⟩ := htree n (List.mem_eraseDups.mpr hn)
  exact hnames n (List.mem_eraseDups.mpr hn) operand (tree n) hscope hnode

/-- The leaf of a named degree, labelled with its name, is written as the name. -/
theorem render_leafOf (name : String) (m : Membership) : (leafOf true name m).render = name := rfl

/-- The operands of named degrees, labelled with their names, are written as the names. -/
theorem render_of_bindOperands {assignments : List (String × Number)}
    {bound : List (String × Node)} {n : String} {operand : Operand} {x : Node}
    (h : bindOperands assignments o true = .ok bound) (hscope : scopeOf bound n = some operand)
    (hx : operand.toNode n = .ok x) : x.render = n := by
  obtain ⟨y, hy, rfl⟩ := Option.map_eq_some_iff.mp hscope
  obtain ⟨raw, m, -, -, rfl⟩ := leaf_of_bindOperands h hy
  obtain rfl : leafOf true n m = x := Except.ok.inj hx
  exact render_leafOf n m

/-- The tree of a formula over named degrees, labelled with their names, is written as the canonical
text. -/
theorem render_of_assign {assignments : List (String × Number)}
    (h : c.assign assignments true o = .ok z) : z.render = c.canonical := by
  obtain ⟨bound, hbound, h⟩ := Outcome.bind_eq_ok.mp h
  exact render_eq_canonical h fun n _ operand x hscope hx => render_of_bindOperands hbound hscope hx

/-- **Named degrees build every formula of their names**, once they all are valid. -/
theorem exists_assign {source : String} {assignments : List (String × Number)} {labels : Bool}
    (hc : ofSource source = .ok c)
    (hvalid : ∀ a ∈ assignments, ∃ m, Membership.of a.2 o = .ok m)
    (hnames : ∀ n ∈ c.names, n ∈ assignments.map Prod.fst) :
    ∃ z, c.assign assignments labels o = .ok z := by
  obtain ⟨bound, hbound⟩ := exists_bindOperands labels hvalid
  obtain ⟨tree, htree⟩ : ∃ tree : String → Node, ∀ n ∈ c.names, bound.lookup n = some (tree n) :=
    ⟨treeOf (.atom ⟨.float .one, o⟩) bound, fun n hn =>
      lookup_eq_treeOf (isSome_of_bindOperands hbound (hnames n hn))⟩
  have hleaf : ∀ n ∈ c.names, (tree n).Uniform o := by
    intro n hn
    obtain ⟨raw, m, -, hm, hx⟩ := leaf_of_bindOperands hbound (htree n hn)
    obtain ⟨d, -, rfl⟩ := Membership.of_eq_ok hm
    rw [hx]
    cases labels <;> exact fun m hm => by rw [List.mem_singleton.mp hm]
  refine ⟨c.formula.instantiate o tree, ?_⟩
  rw [assign, hbound]
  refine build_of_bound (legible_of_ofSource hc) (fun n hn => ?_) (.inl rfl)
  exact ⟨.node (tree n), by rw [scopeOf, htree n hn]; rfl, .node (hleaf n hn)⟩

/-- **A built tree is written as the canonical text, with its operands in place of their names.**  Of
every compiled formula:

* whatever is built of it, the text of the tree fills the frame of the canonical text with the texts
  of the operands, as the names themselves fill it in the canonical text; where the formula was
  compiled from a text, that is the canonical text with every identifier in it replaced; and where
  every operand is a leaf with a label that shows its name, it is the canonical text;
* named degrees, labelled with their names, are written as the canonical text whatever the degrees
  and the operation set, and they build a tree once all degrees are valid and all names have one. -/
theorem built_text_is_canonical (c : Compiled) :
    (∀ scope given z, c.build scope given = .ok z → ∃ tree : String → Node,
      (∀ n ∈ c.names, ∃ operand, scope n = some operand ∧ operand.toNode n = .ok (tree n)) ∧
      (c.formula.frame.gaps = c.formula.nameLeaves ∧ c.canonical = c.formula.frame.fill id ∧
        z.render = c.formula.frame.fill fun n => (tree n).render) ∧
      (∀ source, ofSource source = .ok c →
        z.render.toList = Token.replaceNames (fun n => (tree n).render) c.canonical.toList) ∧
      ((∀ n ∈ c.names, ∃ m label, scope n = some (.node (.labeled m label)) ∧ label.display = n) →
        z.render = c.canonical)) ∧
    (∀ assignments o z, c.assign assignments true o = .ok z → z.render = c.canonical) ∧
    ∀ source assignments o, ofSource source = .ok c →
      (∀ a ∈ assignments, ∃ m, Membership.of a.2 o = .ok m) →
      (∀ n ∈ c.names, n ∈ assignments.map Prod.fst) →
      ∃ z, c.assign assignments true o = .ok z ∧ z.render = c.canonical := by
  refine ⟨fun scope given z h => ?_, fun assignments o z h => ?_,
    fun source assignments o hc hvalid hnames => ?_⟩
  · obtain ⟨tree, htree, hrender⟩ := render_of_build h
    refine ⟨tree, htree, ⟨Formula.gaps_frame c.formula, Formula.canonical_eq_fill c.formula, hrender⟩,
      fun source hc => ?_, fun hlabels => render_eq_canonical h fun n hn operand x hscope hx => ?_⟩
    · rw [hrender, canonical, Formula.replaceNames_canonical (legible_of_ofSource hc)]
    · obtain ⟨m, label, hlabel, hdisplay⟩ := hlabels n hn
      obtain rfl : .node (.labeled m label) = operand := Option.some.inj (hlabel.symm.trans hscope)
      obtain rfl : .labeled m label = x := Except.ok.inj hx
      exact hdisplay
  · exact render_of_assign h
  · obtain ⟨z, hz⟩ := exists_assign hc hvalid hnames
    exact ⟨z, hz, render_of_assign hz⟩

/-- The text `!a | 0.5` over a negation, its operation set left to it, and over a named degree. -/
theorem render_notA_or_half :
    ∃ c, ofSource "!a | 0.5" = .ok c ∧
      (∃ z, c.build (fun _ => some (.node (.not (.atom ⟨.float .one, Catalogue.hamacher0⟩)))) none =
        .ok z ∧ z.render = "(!!1 | 0.5)") ∧
      ∃ z, c.assign [("a", .float .one)] true Catalogue.hamacher0 = .ok z ∧
        z.render = "(!a | 0.5)" := by
  have hc := ofSource_notAOrHalf
  obtain ⟨hbuild, -, hassign⟩ := built_text_is_canonical notAOrHalf
  have hu : Node.Uniform Catalogue.hamacher0 (.not (.atom ⟨.float .one, Catalogue.hamacher0⟩)) :=
    fun m hm => by rw [List.mem_singleton.mp hm]
  obtain ⟨z, hz⟩ : ∃ z, notAOrHalf.build
      (fun _ => some (.node (.not (.atom ⟨.float .one, Catalogue.hamacher0⟩)))) none = .ok z :=
    ⟨_, build_of_bound (legible_of_ofSource hc) (fun n _ => ⟨_, rfl, .node hu⟩)
      (.inr ⟨rfl, by decide⟩)⟩
  refine ⟨_, hc, ⟨z, hz, ?_⟩, ?_⟩
  · obtain ⟨tree, htree, ⟨-, -, hrender⟩, -⟩ := hbuild _ none z hz
    obtain ⟨operand, hscope, hnode⟩ := htree "a" (by decide)
    obtain rfl := Option.some.inj hscope
    have htext : (tree "a").render = "!1" := by
      rw [← Except.ok.inj hnode]
      decide +kernel
    rw [hrender]
    simp only [notAOrHalf, Formula.frame, Frame.fill_operation, Frame.fill_negation, Frame.fill,
      htext]
    decide +kernel
  · obtain ⟨z, hz, hrender⟩ := hassign "!a | 0.5" [("a", .float .one)] Catalogue.hamacher0 hc
      (fun a ha => ⟨⟨.float .one, Catalogue.hamacher0⟩, by rw [List.mem_singleton.mp ha]; rfl⟩)
      (by decide)
    exact ⟨z, hz, hrender.trans (by decide +kernel)⟩

end Compiled

end FuzzyLogic
