import FuzzyLogic.Command.Presentation
import FuzzyLogic.Proofs.Decimal.ReadBack
import FuzzyLogic.Proofs.Formula.Assembly
import FuzzyLogic.Proofs.Outcome

/-!
# Proofs/Command/Presentation — what can be printed

Reports for readers go through markup, and what stands in them may have markup of its own.  On a
lawful console failures are always printed, since what they show of the user's text is escaped
(`failure_printed`).  Expressions, trees and degrees are not escaped, but have nothing in them that
markup knows (`unmarked_source`, `unmarked_canonical`, `unmarked_instantiate`, `unmarked_text`).

What remains are the names of operation sets, which are free, and degrees, which may be too large to
be written.  An evaluation or a comparison is printed exactly if neither stands in its way
(`exists_printed_evaluation_iff`, `exists_printed_comparison_iff`).
-/

namespace FuzzyLogic

/-! ## Unmarked texts -/

section Unmarked

variable {text source : String} {c : Compiled} {o : Opset} {tree : String → Node} {f : Formula}

theorem Unmarked.append {other : String} (h : Unmarked text) (hother : Unmarked other) :
    Unmarked (text ++ other) := by
  rw [Unmarked, String.toList_append]
  exact List.forall_mem_append.mpr ⟨h, hother⟩

/-- The characters of markup stand in no text that splits into tokens. -/
theorem unmarked_of_stray (h : ∀ {c : Char}, Token.isStray c = true → c ∉ text.toList) :
    Unmarked text := by
  intro c hc
  refine ⟨?_, ?_, ?_⟩
  · rintro rfl
    exact h (by decide) hc
  · rintro rfl
    exact h (by decide) hc
  · rintro rfl
    exact h (by decide) hc

theorem Token.Lexeme.unmarked {kind : TokenKind} {rest : List Char}
    (h : Lexeme kind text.toList rest) : Unmarked text :=
  unmarked_of_stray fun hc => h.stray_not_mem hc

theorem Formula.Writes.unmarked (h : Formula.Writes source f) : Unmarked source := by
  obtain ⟨ts, hts, -⟩ := h
  exact unmarked_of_stray fun hc => hts.stray_not_mem hc

theorem unmarked_source (hc : Compiled.ofSource source = .ok c) : Unmarked c.source := by
  obtain ⟨rfl, hwrites⟩ := Compiled.ofSource_eq_ok_iff.mp hc
  exact hwrites.unmarked

theorem unmarked_canonical (hc : Compiled.ofSource source = .ok c) : Unmarked c.canonical := by
  obtain ⟨g, hg, -⟩ := Formula.exists_writes_canonical (Compiled.legible_of_ofSource hc)
  exact hg.unmarked

theorem unmarked_plainText (x : Binary64) : Unmarked x.plainText := by
  cases x with
  | nan => decide
  | signed s m =>
    have htext : (Binary64.signed s m).plainText =
        (if s then "-" else "") ++ (Binary64.signed false m).plainText := by
      cases s
      · rw [if_neg Bool.false_ne_true, String.empty_append]
      · rfl
    have hsign : Unmarked (if s then "-" else "") := by cases s <;> decide
    rw [htext]
    refine hsign.append ?_
    by_cases hm : m = .top
    · subst hm
      decide +kernel
    · obtain ⟨q, hq, -⟩ := Binary64.denotes_plainText hm
      have hlexeme : Token.Lexeme .number _ [] := .number hq rfl
      exact hlexeme.unmarked

theorem unmarked_text (m : Membership) : Unmarked m.text := by
  unfold Membership.text Number.plainText
  split <;> exact unmarked_plainText _

theorem unmarked_natText (n : Nat) : Unmarked (toString n) := by
  intro c hc
  have hdigits : (toString n).toList = Decimal.digitList n := String.toList_ofList
  have hdigit := Numeral.digits_digitList n c (hdigits ▸ hc)
  refine ⟨?_, ?_, ?_⟩ <;> rintro rfl <;> exact absurd hdigit (by decide)

theorem Formula.Legible.unmarked_name (h : f.Legible) : ∀ n ∈ f.nameLeaves, Unmarked n := by
  induction f with
  | name text position =>
    intro n hn
    rw [List.mem_singleton.mp hn]
    exact (Token.Lexeme.ident h Text.stops_nil).unmarked
  | literal => exact nofun
  | negation f ih => exact ih h
  | conjunction f g ihf ihg | disjunction f g ihf ihg =>
    exact List.forall_mem_append.mpr ⟨ihf h.1, ihg h.2⟩

/-- Over unmarked trees a formula is written unmarked. -/
theorem unmarked_instantiate (h : ∀ n ∈ f.nameLeaves, Unmarked (tree n).render) :
    Unmarked (f.instantiate o tree).render := by
  induction f with
  | name text position => exact h text (List.mem_singleton_self text)
  | literal value position => exact unmarked_text _
  | negation f ih => exact Unmarked.append (by decide) (ih h)
  | conjunction f g ihf ihg | disjunction f g ihf ihg =>
    obtain ⟨hf, hg⟩ := List.forall_mem_append.mp h
    rw [Formula.instantiate, Node.render]
    exact ((((Unmarked.append (by decide) (ihf hf)).append (by decide)).append (ihg hg)).append
      (by decide))

end Unmarked

/-! ## Consoles -/

namespace Console

variable {k : Console} {text : String}

theorem Lawful.shows_unmarked (hk : k.Lawful) (h : Unmarked text) : k.Shows text := by
  have hshows := hk.shows_readable (.plain .empty h)
  rwa [String.empty_append] at hshows

theorem Lawful.shows_apply (hk : k.Lawful) (style : Style) (h : Unmarked text) :
    k.Shows (style.apply text) := by
  have hshows := hk.shows_readable (.styled style .empty h)
  rwa [String.empty_append] at hshows

/-- Lines are shown exactly if each of them can be. -/
theorem exists_lines_iff {markups : List String} :
    (∃ shown, k.lines markups = .ok shown) ↔ ∀ markup ∈ markups, k.Shows markup := by
  refine Iff.trans ?_ Outcome.exists_mapM_iff
  simp only [lines, Outcome.map_eq_ok, exists_comm, exists_and_left, exists_eq', and_true]

end Console

namespace Report

variable {k : Console} {json : Bool}

/-! ## Failures -/

theorem readable_heading {text : String} (h : Unmarked text) : Readable (heading text) := by
  have hbreak : Readable ("" ++ "\n") := .plain .empty (by decide)
  have hblank : Unmarked " " := by decide
  rw [String.empty_append] at hbreak
  exact (Readable.styled .boldRed hbreak h).plain hblank

theorem unmarked_place (position : Nat) : Unmarked (place position) :=
  (Unmarked.append (by decide) (unmarked_natText position)).append (by decide)

/-- The lines on a failure can be shown. -/
theorem exists_lines_failureLines (hk : k.Lawful) (f : Fault) :
    ∃ text, k.lines (failureLines k f) = .ok text := by
  have hempty : Unmarked "" := by decide
  have hfail : Unmarked "FAIL" := by decide
  refine Console.exists_lines_iff.mpr ?_
  unfold failureLines
  split
  case h_1 f =>
    refine List.forall_mem_cons.mpr ⟨?_, List.forall_mem_singleton.mpr ?_⟩
    · exact hk.shows_escape f.reason (readable_heading (by decide)) (unmarked_place f.position)
    · have hshows := hk.shows_escape f.diagram .empty hempty
      rwa [String.empty_append, String.append_empty] at hshows
  case h_2 =>
    have hshows := hk.shows_escape f.message (readable_heading hfail) hempty
    rw [String.append_empty] at hshows
    exact List.forall_mem_singleton.mpr hshows

/-- The document of a failure has no numbers in it. -/
theorem numbers_document_failure (f : Fault) (code : ExitCode) :
    (failure f code).document.numbers = [] := by
  cases f <;> rfl

/-- **Failures are always printed**: as documents, or in the lines on them. -/
theorem failure_printed (hk : k.Lawful) (f : Fault) (code : ExitCode) (json : Bool) :
    ∃ text, (failure f code).printed k json = .ok text ∧
      if json then text = (failure f code).document.written ++ "\n"
      else k.lines (failureLines k f) = .ok text := by
  cases json with
  | true =>
    refine ⟨_, ?_, rfl⟩
    change (failure f code).document.printed = _
    rw [Document.printed, numbers_document_failure]
    rfl
  | false =>
    obtain ⟨text, htext⟩ := exists_lines_failureLines hk f
    exact ⟨text, htext, htext⟩

/-! ## Evaluations and comparisons -/

variable {c : Compiled} {o : Opset} {v : Valuation} {rows : List Comparison}

/-- A number is not too large to be written as doubles are. -/
def Fits (n : Number) : Prop := ∃ x, n.toBinary64 = .ok x

/-- A degree under a name can be printed: as a number of not too many digits in a document, else if
the name can be shown and the number fits the doubles. -/
def Printable (k : Console) (json : Bool) (name : String) (n : Number) : Prop :=
  if json then n.checkDigits = .ok () else k.Shows name ∧ Fits n

theorem checkWritten_eq_ok_iff {m : Membership} : m.checkWritten = .ok ⟨⟩ ↔ Fits m.raw := by
  rw [Membership.checkWritten, Fits]
  cases m.raw.toBinary64 with
  | ok x => exact iff_of_true rfl ⟨x, rfl⟩
  | error f => exact iff_of_false nofun nofun

/-- A document is printed exactly if no number in it has too many digits. -/
theorem exists_document_printed_iff {d : Document} :
    (∃ text, d.printed = .ok text) ↔ ∀ n ∈ d.numbers, n.checkDigits = .ok () := by
  rw [Document.printed, Outcome.exists_check_bind, Outcome.forM_eq_ok_iff]
  exact and_iff_left ⟨_, rfl⟩

theorem numbers_document_evaluation :
    (evaluation c o v).document.numbers = [v.value.raw] := rfl

theorem numbers_document_comparison :
    (comparison c rows).document.numbers = rows.map fun row => row.valuation.value.raw := by
  have hitems : Document.itemNumbers (rows.map comparisonDocument) =
      rows.map fun row => row.valuation.value.raw := by
    induction rows with
    | nil => rfl
    | cons row rows ih => exact congrArg (row.valuation.value.raw :: ·) ih
  exact (List.append_nil _).trans hitems

/-- What stands in the table of an evaluation can be shown exactly if the name of the operation set
can. -/
theorem shows_evaluationTable_iff (hk : k.Lawful) (hsource : Unmarked c.source)
    (hcanonical : Unmarked c.canonical) (htree : Unmarked v.tree.render) :
    (∀ markup ∈ (evaluationTable c o v).texts, k.Shows markup) ↔ k.Shows o.name := by
  have hfixed : ∀ text ∈ ["Evaluation", "Expression", "Canonical", "Rendered", "Opset", "Value"],
      k.Shows text := by
    intro text htext
    refine hk.shows_unmarked ?_
    revert text
    decide
  have hvalue := hk.shows_apply .green (unmarked_text v.value)
  simp only [List.forall_mem_cons] at hfixed
  simp [Table.texts, Table.cells, evaluationTable, hfixed, hvalue, hk.shows_unmarked hsource,
    hk.shows_unmarked hcanonical, hk.shows_unmarked htree]

/-- What stands in the table of a comparison can be shown exactly if the names of its rows can. -/
theorem shows_comparisonTable_iff (hk : k.Lawful) (hcanonical : Unmarked c.canonical) :
    (∀ markup ∈ (comparisonTable c rows).texts, k.Shows markup) ↔
      ∀ row ∈ rows, k.Shows row.name := by
  have hdifferentiable : ∀ o : Opset, k.Shows (differentiableCell o) := by
    intro o
    unfold differentiableCell
    split
    · exact hk.shows_unmarked (by decide)
    · exact hk.shows_apply .dim (by decide)
  have hheader : ∀ text ∈ ["Opset", "Differentiable", "Value"], k.Shows text := by
    intro text htext
    refine hk.shows_unmarked ?_
    revert text
    decide
  have hvalue : ∀ row : Comparison, k.Shows row.valuation.value.text := fun row =>
    hk.shows_unmarked (unmarked_text row.valuation.value)
  rw [Table.texts, Table.cells, List.forall_mem_cons, List.forall_mem_append,
    List.forall_mem_flatten]
  simp only [comparisonTable, List.forall_mem_map, List.forall_mem_cons]
  simp [hk.shows_unmarked hcanonical, hheader, hdifferentiable, hvalue]

/-- **An evaluation is printed exactly if its degree is printable** under the name of the operation
set. -/
theorem exists_printed_evaluation_iff (hk : k.Lawful) (hsource : Unmarked c.source)
    (hcanonical : Unmarked c.canonical) (htree : Unmarked v.tree.render) :
    (∃ text, (evaluation c o v).printed k json = .ok text) ↔
      Printable k json o.name v.value.raw := by
  cases json with
  | true =>
    refine exists_document_printed_iff.trans ?_
    rw [numbers_document_evaluation]
    exact List.forall_mem_singleton
  | false =>
    change (∃ text, (evaluation c o v).readable k = .ok text) ↔ k.Shows o.name ∧ Fits v.value.raw
    rw [readable, Outcome.exists_check_bind, checkWritten_eq_ok_iff,
      hk.table_iff (evaluationTable c o v) (List.cons_ne_nil _ _),
      shows_evaluationTable_iff hk hsource hcanonical htree]
    exact and_comm

/-- **A comparison is printed exactly if the degrees of its rows are printable** under their
names. -/
theorem exists_printed_comparison_iff (hk : k.Lawful) (hcanonical : Unmarked c.canonical) :
    (∃ text, (comparison c rows).printed k json = .ok text) ↔
      ∀ row ∈ rows, Printable k json row.name row.valuation.value.raw := by
  cases json with
  | true =>
    refine exists_document_printed_iff.trans ?_
    rw [numbers_document_comparison]
    exact List.forall_mem_map
  | false =>
    change (∃ text, (comparison c rows).readable k = .ok text) ↔
      ∀ row ∈ rows, k.Shows row.name ∧ Fits row.valuation.value.raw
    simp only [forall₂_and, ← checkWritten_eq_ok_iff]
    rw [readable, Outcome.exists_check_bind, Outcome.forM_eq_ok_iff,
      hk.table_iff (comparisonTable c rows) (List.cons_ne_nil _ _),
      shows_comparisonTable_iff hk hcanonical]
    exact and_comm

end Report

end FuzzyLogic
