import FuzzyLogic.Proofs.Formula.Compilation
import Mathlib.Data.List.Forall2

/-!
# Proofs/Formula/Nodes — tokens and the nodes that they head

A formula is written with one token for every node, and parentheses.  `Formula.inorder` lists the
nodes in the order in which formulas are written, a negation before its operand and an operator
between its operands.  **The tokens that are no parentheses head these nodes one by one**
(`Derives.heads`).

Everything that is collected over a formula is collected over that list: leaves, names, literals and
the numbers of operators.  So each of them is what is collected over the tokens, in their order
(`compiled_nodes_are_tokens`).
-/

namespace FuzzyLogic

namespace TokenKind

/-- Heads a leaf. -/
def isOperand : TokenKind → Bool
  | .ident | .number => true
  | _ => false

/-- Heads a node: neither a parenthesis nor the end. -/
def headsNode : TokenKind → Bool
  | .ident | .number | .not | .and | .or => true
  | _ => false

end TokenKind

/-- The name that a token writes. -/
def Token.name? (t : Token) : Option String := if t.kind = .ident then some t.text else none

/-- The different texts of a list, in the order of their first occurrences. -/
structure FirstOccurrences (all firsts : List String) : Prop where
  mem_iff : ∀ n, n ∈ firsts ↔ n ∈ all
  ordered : firsts.Pairwise fun m n => all.idxOf m < all.idxOf n

namespace Formula

/-! ## Nodes -/

/-- The nodes, in the order in which the formula is written. -/
def inorder : Formula → List Formula
  | name text position => [name text position]
  | literal value position => [literal value position]
  | negation operand => negation operand :: operand.inorder
  | conjunction left right => left.inorder ++ conjunction left right :: right.inorder
  | disjunction left right => left.inorder ++ disjunction left right :: right.inorder

/-- The leaves, from left to right. -/
def leaves : Formula → List Formula
  | name text position => [name text position]
  | literal value position => [literal value position]
  | negation operand => operand.leaves
  | conjunction left right | disjunction left right => left.leaves ++ right.leaves

/-- The kind of the token that heads a formula. -/
def headKind : Formula → TokenKind
  | name _ _ => .ident
  | literal _ _ => .number
  | negation _ => .not
  | conjunction _ _ => .and
  | disjunction _ _ => .or

/-- The name that a formula is. -/
def name? : Formula → Option String
  | name text _ => some text
  | _ => none

/-- A token heads a formula: it is its operator; of a leaf it has the place, and the text or the
value. -/
inductive Heads : Token → Formula → Prop
  | name {t} : t.kind = .ident → Heads t (.name t.text t.position)
  | literal {t value} : t.kind = .number → IsDegreeNumeral t.text value →
      Heads t (.literal value t.position)
  | negation {t f} : t.kind = .not → Heads t (.negation f)
  | conjunction {t f g} : t.kind = .and → Heads t (.conjunction f g)
  | disjunction {t f g} : t.kind = .or → Heads t (.disjunction f g)

variable {level : Level} {ts : List Token} {fs : List Formula} {t : Token} {f : Formula}
  {p : TokenKind → Bool}

theorem Heads.headKind_eq (h : Heads t f) : f.headKind = t.kind := by
  cases h <;> exact Eq.symm ‹_›

theorem Heads.name?_eq (h : Heads t f) : f.name? = t.name? := by
  cases h <;> simp [Formula.name?, Token.name?, *]

/-! ## What is collected over nodes -/

theorem leaves_eq (f : Formula) : f.leaves = f.inorder.filter (·.headKind.isOperand) := by
  induction f with
  | name | literal => rfl
  | negation f ih => exact ih
  | conjunction f g ihf ihg | disjunction f g ihf ihg =>
    rw [leaves, inorder, List.filter_append, ihf, ihg]
    rfl

theorem nameLeaves_eq (f : Formula) : f.nameLeaves = f.inorder.filterMap name? := by
  induction f with
  | name | literal => rfl
  | negation f ih => exact ih
  | conjunction f g ihf ihg | disjunction f g ihf ihg =>
    rw [nameLeaves, inorder, List.filterMap_append, ihf, ihg]
    rfl

theorem length_literals (f : Formula) :
    f.literals.length = f.inorder.countP (·.headKind = .number) := by
  induction f with
  | name | literal => rfl
  | negation f ih => exact ih
  | conjunction f g ihf ihg | disjunction f g ihf ihg =>
    rw [literals, inorder, List.length_append, List.countP_append, ihf, ihg]
    rfl

/-! ## Tokens that head nodes -/

/-- **Every token of a phrase but its parentheses heads a node**, and every node is headed by one,
in the same order. -/
theorem Derives.heads (h : Derives level ts f) :
    List.Forall₂ Heads (ts.filter (·.kind.headsNode)) f.inorder := by
  induction h with
  | disjunct _ ih | conjunct _ ih | operand _ ih => exact ih
  | or _ hop _ ihf ihg =>
    rw [List.filter_append, List.filter_cons_of_pos (by rw [hop]; rfl)]
    exact List.rel_append ihf (.cons (.disjunction hop) ihg)
  | and _ hop _ ihf ihg =>
    rw [List.filter_append, List.filter_cons_of_pos (by rw [hop]; rfl)]
    exact List.rel_append ihf (.cons (.conjunction hop) ihg)
  | not hop _ ih =>
    rw [List.filter_cons_of_pos (by rw [hop]; rfl)]
    exact .cons (.negation hop) ih
  | name ht =>
    rw [List.filter_cons_of_pos (by rw [ht]; rfl)]
    exact .cons (.name ht) .nil
  | number ht hvalue =>
    rw [List.filter_cons_of_pos (by rw [ht]; rfl)]
    exact .cons (.literal ht hvalue) .nil
  | parentheses hopening _ hclosing ih =>
    rw [List.filter_cons_of_neg (by rw [hopening]; decide), List.filter_append,
      List.filter_cons_of_neg (by rw [hclosing]; decide), List.filter_nil, List.append_nil]
    exact ih

/-- The tokens of some kinds head the nodes of these kinds. -/
theorem heads_filter (h : List.Forall₂ Heads (ts.filter (·.kind.headsNode)) fs)
    (hp : ∀ kind, p kind = true → kind.headsNode = true) :
    List.Forall₂ Heads (ts.filter (p ·.kind)) (fs.filter (p ·.headKind)) := by
  have hkinds : ∀ t : Token, (p t.kind && t.kind.headsNode) = p t.kind := fun t => by
    cases hkind : p t.kind with
    | false => rfl
    | true => rw [hp _ hkind]; rfl
  have hsame : Relator.LiftFun Heads (· ↔ ·) (p ·.kind = true) (p ·.headKind = true) :=
    fun t f ht => iff_of_eq (congrArg (p · = true) ht.headKind_eq.symm)
  have hfilter := List.rel_filter hsame h
  rwa [List.filter_filter, funext hkinds] at hfilter

/-- There are as many tokens of some kinds as nodes. -/
theorem countP_heads (h : List.Forall₂ Heads (ts.filter (·.kind.headsNode)) fs)
    (hp : ∀ kind, p kind = true → kind.headsNode = true) :
    fs.countP (p ·.headKind) = ts.countP (p ·.kind) := by
  rw [List.countP_eq_length_filter, List.countP_eq_length_filter]
  exact (heads_filter h hp).length_eq.symm

/-- The names among the nodes are those that the tokens write. -/
theorem filterMap_name? (h : List.Forall₂ Heads (ts.filter (·.kind.headsNode)) fs) :
    fs.filterMap name? = ts.filterMap Token.name? := by
  have hnode : ∀ t : Token, (if t.kind.headsNode then t.name? else none) = t.name? := fun t => by
    unfold Token.name?
    cases t.kind <;> rfl
  rw [← funext hnode, ← List.filterMap_filter]
  generalize ts.filter (·.kind.headsNode) = us at h
  induction h with
  | nil => rfl
  | cons ht _ ih => rw [List.filterMap_cons, List.filterMap_cons, ht.name?_eq, ih]

end Formula

/-! ## First occurrences -/

namespace FirstOccurrences

variable {all firsts : List String} {m n : String}

/-- What is dropped from a list does not change which of two others comes first. -/
theorem idxOf_lt_of_filter {p : String → Bool} (hm : p m = true) (hn : p n = true)
    (h : (all.filter p).idxOf m < (all.filter p).idxOf n) : all.idxOf m < all.idxOf n := by
  induction all with
  | nil => exact h
  | cons a rest ih =>
    have hrest : ∀ {x : String}, a ≠ x → (a :: rest).idxOf x = rest.idxOf x + 1 :=
      fun hx => List.idxOf_cons_ne rest hx
    by_cases ham : a = m
    · subst ham
      by_cases han : a = n
      · subst han
        exact absurd h (Nat.lt_irrefl _)
      · rw [List.idxOf_cons_self, hrest han]
        exact Nat.succ_pos _
    · by_cases han : a = n
      · subst han
        rw [List.filter_cons_of_pos hn, List.idxOf_cons_self] at h
        exact absurd h (Nat.not_lt_zero _)
      · rw [hrest ham, hrest han]
        refine Nat.succ_lt_succ (ih ?_)
        by_cases ha : p a = true
        · rw [List.filter_cons_of_pos ha, List.idxOf_cons_ne _ ham, List.idxOf_cons_ne _ han] at h
          exact Nat.lt_of_succ_lt_succ h
        · rwa [List.filter_cons_of_neg ha] at h

theorem eraseDups (all : List String) : FirstOccurrences all all.eraseDups := by
  refine ⟨fun n => List.mem_eraseDups, ?_⟩
  induction hlength : all.length using Nat.strong_induction_on generalizing all with
  | _ length ih =>
  subst hlength
  cases all with
  | nil => exact .nil
  | cons a rest =>
    have hne : ∀ n ∈ (rest.filter fun b => !b == a).eraseDups, a ≠ n ∧ (!n == a) = true := by
      intro n hn
      have hn := (List.mem_filter.mp (List.mem_eraseDups.mp hn)).2
      exact ⟨fun h => by simp [h] at hn, hn⟩
    rw [List.eraseDups_cons]
    refine .cons (fun n hn => ?_) ?_
    · rw [List.idxOf_cons_self, List.idxOf_cons_ne rest (hne n hn).1]
      exact Nat.succ_pos _
    · have hshorter : (rest.filter fun b => !b == a).length < (a :: rest).length :=
        Nat.lt_succ_of_le (List.length_filter_le _ _)
      refine (ih _ hshorter _ rfl).imp_of_mem fun {m n} hm hn h => ?_
      rw [List.idxOf_cons_ne rest (hne m hm).1, List.idxOf_cons_ne rest (hne n hn).1]
      exact Nat.succ_lt_succ (idxOf_lt_of_filter (hne m hm).2 (hne n hn).2 h)

end FirstOccurrences

/-! ## Compiled formulas -/

/-- **The nodes of a compiled formula are the tokens of its text**, less the parentheses.

* The leaves, from left to right, are the names and numbers among the tokens, in order, each at its
  token's place and with its text or its value; and all nodes, an operator between its operands, are
  all the tokens but parentheses, in order.
* The names are the different names among the tokens, in the order of their first occurrences.
* There is a literal degree exactly if there is a number among the tokens.
* As many nodes join two operands as tokens do, and as many nodes are negations as tokens. -/
theorem compiled_nodes_are_tokens {source : String} {c : Compiled}
    (h : Compiled.ofSource source = .ok c) : ∃ ts, tokenize source = .ok ts ∧
      (List.Forall₂ Formula.Heads (ts.filter (·.kind.isOperand)) c.formula.leaves ∧
        List.Forall₂ Formula.Heads (ts.filter (·.kind.headsNode)) c.formula.inorder) ∧
      FirstOccurrences (ts.filterMap Token.name?) c.names ∧
      (c.hasLiterals = true ↔ ∃ t ∈ ts, t.kind = .number) ∧
      c.formula.inorder.countP (·.headKind.isBinary) = ts.countP (·.kind.isBinary) ∧
      c.formula.inorder.countP (·.headKind = .not) = ts.countP (·.kind = .not) := by
  obtain ⟨rfl, us, hus, hderives⟩ := Compiled.ofSource_eq_ok_iff.mp h
  have htokens : tokenize c.source = .ok (us ++ [Token.stop c.source.length]) := by
    rw [tokenize, Formula.lexemes_eq_ok_iff.mpr hus]
    rfl
  have hheads : List.Forall₂ Formula.Heads
      ((us ++ [Token.stop c.source.length]).filter (·.kind.headsNode)) c.formula.inorder := by
    have hstop : [Token.stop c.source.length].filter (·.kind.headsNode) = [] := rfl
    rw [List.filter_append, hstop, List.append_nil]
    exact hderives.heads
  generalize us ++ [Token.stop c.source.length] = ts at htokens hheads
  refine ⟨ts, htokens, ⟨?_, hheads⟩, ?_, ?_, ?_, ?_⟩
  · rw [Formula.leaves_eq]
    exact Formula.heads_filter hheads fun kind => by cases kind <;> decide
  · have hnames : c.formula.nameLeaves = ts.filterMap Token.name? :=
      c.formula.nameLeaves_eq.trans (Formula.filterMap_name? hheads)
    rw [← hnames]
    exact .eraseDups _
  · have hcount : c.formula.literals.length = ts.countP (·.kind = .number) :=
      c.formula.length_literals.trans <|
        Formula.countP_heads (p := (· = .number)) hheads fun kind => by cases kind <;> decide
    have hliterals : c.hasLiterals = true ↔ 0 < c.formula.literals.length := by
      rw [List.length_pos_iff]
      simp [Compiled.hasLiterals, Formula.hasLiterals]
    rw [hliterals, hcount, List.countP_pos_iff]
    simp only [decide_eq_true_eq]
  · exact Formula.countP_heads hheads fun kind => by cases kind <;> decide
  · exact Formula.countP_heads (p := (· = .not)) hheads fun kind => by cases kind <;> decide

/-- The text `!a | 0.5` has two leaves, a name and a literal, a negation and an operator. -/
theorem nodes_of_notA_or_half :
    ∃ c ts, Compiled.ofSource "!a | 0.5" = .ok c ∧ tokenize "!a | 0.5" = .ok ts ∧
      List.Forall₂ Formula.Heads (ts.filter (·.kind.isOperand))
        [.name "a" 1, .literal (Formula.literalValue "0.5") 5] ∧
      FirstOccurrences (ts.filterMap Token.name?) ["a"] ∧ (∃ t ∈ ts, t.kind = .number) ∧
      1 = ts.countP (·.kind.isBinary) ∧ 1 = ts.countP (·.kind = .not) := by
  obtain ⟨ts, hts, ⟨hleaves, -⟩, hnames, hliterals, hbinary, hnegations⟩ :=
    compiled_nodes_are_tokens Compiled.ofSource_notAOrHalf
  exact ⟨_, ts, Compiled.ofSource_notAOrHalf, hts, hleaves, hnames, hliterals.mp rfl, hbinary,
    hnegations⟩

end FuzzyLogic
