import FuzzyLogic.Proofs.Command.Evaluation

/-!
# Proofs/Command/Comparison — a comparison is its evaluations, side by side

A comparison goes through the registered names in order and evaluates under each operation set, up
to the first mistake.  Whether something is wrong with an expression and its values does not depend
on the operation set, so that the first row already decides for all (`compareRows_of_mistake`); and
if nothing is wrong there is a row for every name (`exists_compareRows`), which holds what the
evaluation under it reports.

The commands end as they report wherever all that they show is printable (`finishes_iff`), so that
**a comparison then agrees with the evaluations under the registered sets**.  A row that is not
printable stands in the way of the whole comparison, and only of the evaluation under its own set
(`unprinted_comparison`).
-/

namespace FuzzyLogic

namespace Report

open Compiled

variable {r : Registry} {expression name : String} {assignments : List (String × Binary64)}
  {labels : Bool} {o : Opset} {c : Compiled} {f : Fault} {rows : List Comparison}

/-- A command gives a report, and it is a success. -/
def Succeeds (outcome : Except Fault Report) : Prop :=
  ∃ found, outcome = .ok found ∧ found.code = .success

theorem not_succeeds_failure : ¬ Succeeds (.ok (.failure f .mistake)) := by
  rintro ⟨found, h, hcode⟩
  rw [← Except.ok.inj h] at hcode
  cases hcode

/-- An evaluation under a quiet operation set succeeds exactly if nothing is wrong. -/
theorem succeeds_evaluate_iff (ho : r.get? name = some o) (hquiet : o.Quiet) :
    Succeeds (evaluate r name expression assignments labels) ↔
      ∃ c, ofSource expression = .ok c ∧ Assigns assignments c := by
  rcases assigns_or_mistake expression assignments with ⟨c, hc, hassigns⟩ | hmistake
  · obtain ⟨d, -, -, hreport⟩ := evaluate_of_assigns labels ho hquiet hc hassigns
    exact iff_of_true ⟨_, hreport, rfl⟩ ⟨c, hc, hassigns⟩
  · obtain ⟨f, hf⟩ := hmistake o
    rw [evaluate_of_mistake labels ho hf]
    exact iff_of_false not_succeeds_failure hf.not_assigns

/-! ## Rows -/

/-- The row of an operation set holds what the evaluation under it reports. -/
structure IsRow (r : Registry) (expression : String) (assignments : List (String × Binary64))
    (labels : Bool) (c : Compiled) (row : Comparison) : Prop where
  get?_eq : r.get? row.name = some row.opset
  tree_eq : row.valuation.tree = c.formula.instantiate row.opset (leaf assignments labels row.opset)
  evaluate_eq : evaluate r row.name expression assignments labels =
    .ok (.evaluation c row.opset row.valuation)
  reached : row.opset.Reached row.valuation.value.raw

/-- The rows of names from the first on. -/
theorem compareRows_cons {names : List String} (ho : r.get? name = some o) :
    compareRows r c assignments labels (name :: names) =
      match c.assign (numbers assignments) labels o with
      | .error f => if f.isMistake then .ok (.error f) else .error f
      | .ok tree => do
        let value ← tree.evaluate
        let others ← compareRows r c assignments labels names
        return others.map (⟨name, o, ⟨tree, value⟩⟩ :: ·) := by
  rw [compareRows, Registry.require_eq_ok_iff.mpr ho]
  rfl

/-- **There is a row for every name**, if nothing is wrong. -/
theorem exists_compareRows (labels : Bool) (hc : ofSource expression = .ok c)
    (h : Assigns assignments c) {names : List String}
    (hnames : ∀ name ∈ names, ∃ o, r.get? name = some o ∧ o.Quiet) :
    ∃ rows, compareRows r c assignments labels names = .ok (.ok rows) ∧
      rows.map Comparison.name = names ∧
      ∀ row ∈ rows, IsRow r expression assignments labels c row := by
  induction names with
  | nil => exact ⟨[], rfl, rfl, fun _ hrow => absurd hrow List.not_mem_nil⟩
  | cons name names ih =>
    obtain ⟨⟨o, ho, hquiet⟩, hrest⟩ := List.forall_mem_cons.mp hnames
    obtain ⟨rows, hrows, hmap, hall⟩ := ih hrest
    obtain ⟨d, hreached, heval, hreport⟩ := evaluate_of_assigns labels ho hquiet hc h
    refine ⟨⟨name, o, ⟨c.formula.instantiate o (leaf assignments labels o), ⟨d, o⟩⟩⟩ :: rows, ?_,
      congrArg (name :: ·) hmap, List.forall_mem_cons.mpr ⟨⟨ho, rfl, hreport, hreached⟩, hall⟩⟩
    rw [compareRows_cons ho, assign_of_assigns hc h]
    dsimp only
    rw [heval, hrows]
    rfl

/-- **The first row already comes to the mistake**, if there is one. -/
theorem compareRows_of_mistake (hc : ofSource expression = .ok c)
    (h : Mistake expression assignments o f) {names : List String} (ho : r.get? name = some o) :
    compareRows r c assignments labels (name :: names) = .ok (.error f) := by
  rw [compareRows_cons ho, assign_of_mistake h hc]
  exact if_pos h.isMistake

/-! ## Reports -/

section Registered

variable (hr : r.Filed) (hquiet : ∀ e ∈ r.entries, e.2.Quiet)
include hr hquiet

theorem exists_quiet_of_mem_names (h : name ∈ r.names) : ∃ o, r.get? name = some o ∧ o.Quiet := by
  obtain ⟨o, hmem, ho⟩ := hr.get?_of_mem_names h
  exact ⟨o, ho, hquiet _ hmem⟩

/-- A comparison over assigned values has a row for every registered name. -/
theorem compare_of_assigns (labels : Bool) (hc : ofSource expression = .ok c)
    (h : Assigns assignments c) :
    ∃ rows, compare r expression assignments labels = .ok (.comparison c rows) ∧
      rows.map Comparison.name = r.names ∧
      ∀ row ∈ rows, IsRow r expression assignments labels c row := by
  obtain ⟨rows, hrows, hmap, hall⟩ := exists_compareRows labels hc h fun name hname =>
    exists_quiet_of_mem_names hr hquiet hname
  refine ⟨rows, ?_, hmap, hall⟩
  simp only [compare, hc]
  rw [hrows]
  rfl

/-- A mistake under some operation set is one under the first, and the comparison reports it. -/
theorem compare_of_mistake (labels : Bool) (hne : r.names ≠ [])
    (h : ∀ o, ∃ f, Mistake expression assignments o f) :
    ∃ o f, Mistake expression assignments o f ∧
      compare r expression assignments labels = .ok (.failure f .mistake) := by
  obtain ⟨name, names, hnames⟩ := List.exists_cons_of_ne_nil hne
  obtain ⟨o, ho, -⟩ := exists_quiet_of_mem_names hr hquiet (hnames ▸ List.mem_cons_self)
  obtain ⟨f, hf⟩ := h o
  refine ⟨o, f, hf, ?_⟩
  cases hc : ofSource expression with
  | error e =>
    obtain rfl : f = e := hf.unique (.syntaxFault hc)
    simp only [compare, hc]
    exact if_pos hf.isMistake
  | ok c =>
    simp only [compare, hc]
    rw [hnames, compareRows_of_mistake hc hf ho]
    rfl

/-- A comparison succeeds exactly if nothing is wrong. -/
theorem succeeds_compare_iff (hne : r.names ≠ []) :
    Succeeds (compare r expression assignments labels) ↔
      ∃ c, ofSource expression = .ok c ∧ Assigns assignments c := by
  rcases assigns_or_mistake expression assignments with ⟨c, hc, hassigns⟩ | hmistake
  · obtain ⟨rows, hreport, -⟩ := compare_of_assigns hr hquiet labels hc hassigns
    exact iff_of_true ⟨_, hreport, rfl⟩ ⟨c, hc, hassigns⟩
  · obtain ⟨o, f, hf, hreport⟩ := compare_of_mistake hr hquiet labels hne hmistake
    rw [hreport]
    exact iff_of_false not_succeeds_failure hf.not_assigns

end Registered

end Report

namespace Site

open Report

variable {k : Console} {r : Registry} {history : List (Definition × Nat)} {s : Settings}
  {expression name : String} {o : Options} {c : Compiled} {rows : List Comparison}

/-- What is decided alike throughout a list that has elements holds of all of them exactly if it
holds of one. -/
theorem iff_forall_iff_exists {α : Type} {l : List α} (hne : l ≠ []) {P R : Prop} {Q : α → Prop}
    (hP : P ↔ R) (hQ : ∀ a ∈ l, (Q a ↔ R)) :
    (P ↔ ∀ a ∈ l, Q a) ∧ ((∀ a ∈ l, Q a) ↔ ∃ a ∈ l, Q a) := by
  obtain ⟨first, hfirst⟩ := List.exists_mem_of_ne_nil _ hne
  have hall : R ↔ ∀ a ∈ l, Q a :=
    ⟨fun h a ha => (hQ a ha).mpr h, fun h => (hQ first hfirst).mp (h first hfirst)⟩
  refine ⟨hP.trans hall, fun h => ⟨first, hfirst, h first hfirst⟩, ?_⟩
  rintro ⟨a, ha, h⟩
  exact hall.mp ((hQ a ha).mp h)

/-! ## Commands -/

/-- A command ends, and with a success. -/
def Finishes (outcome : Except Fault (Report × String)) : Prop :=
  ∃ found text, outcome = .ok (found, text) ∧ found.code = .success

/-- The evaluation of an expression under a name, which settings and command line both choose. -/
def evaluationUnder (k : Console) (r : Registry) (s : Settings) (expression : String) (o : Options)
    (name : String) : Except Fault (Report × String) :=
  handle k r { s with defaultOpset := name } (.eval expression { o with opset? := some name })

/-- It reports what the operation set of the name comes to. -/
theorem report_evaluationUnder (r : Registry) (s : Settings) (expression : String) (o : Options)
    (name : String) :
    report r { s with defaultOpset := name } (.eval expression { o with opset? := some name }) =
      evaluate r name expression o.assignments (labels s o) := by
  have hname : opsetName { s with defaultOpset := name } { o with opset? := some name } = name :=
    ite_self name
  rw [report, hname]
  rfl

/-- What is printed finishes exactly if it succeeds. -/
theorem finishes_iff {command : Command}
    (hprinted : ∀ found, report r s command = .ok found → found.code = .success →
      ∃ text, found.printed k (options command).json = .ok text) :
    Finishes (handle k r s command) ↔ Succeeds (report r s command) := by
  constructor
  · rintro ⟨found, text, hfound, hcode⟩
    exact ⟨found, report_of_handle hfound, hcode⟩
  · rintro ⟨found, hfound, hcode⟩
    obtain ⟨text, htext⟩ := hprinted found hfound hcode
    refine ⟨found, text, ?_, hcode⟩
    rw [handle_of_report hfound, htext]
    rfl

/-- The rows of a comparison: the registered names in order, each with the operation set of the name
and with what the evaluation under it reports, and all written alike. -/
structure AreRows (r : Registry) (s : Settings) (expression : String) (o : Options) (c : Compiled)
    (rows : List Comparison) : Prop where
  names_eq : rows.map Comparison.name = r.names
  get?_eq : ∀ row ∈ rows, r.get? row.name = some row.opset
  evaluate_eq : ∀ row ∈ rows, evaluate r row.name expression o.assignments (labels s o) =
    .ok (.evaluation c row.opset row.valuation)
  reached : ∀ row ∈ rows, row.opset.Reached row.valuation.value.raw
  render_eq : ∀ row ∈ rows, ∀ other ∈ rows,
    row.valuation.tree.render = other.valuation.tree.render

theorem AreRows.mem_entries (h : AreRows r s expression o c rows) (hr : r.Filed)
    {row : Comparison} (hrow : row ∈ rows) : (row.name, row.opset) ∈ r.entries := by
  have hname : row.name ∈ r.names := h.names_eq ▸ List.mem_map_of_mem hrow
  obtain ⟨p, hmem, hp⟩ := hr.get?_of_mem_names hname
  obtain rfl := Option.some.inj ((h.get?_eq row hrow).symm.trans hp)
  exact hmem

section Registered

variable (hr : r.Filed) (hquiet : ∀ e ∈ r.entries, e.2.Quiet) (hne : r.names ≠ [])
include hr hquiet hne

/-- **A comparison that succeeds has its rows.** -/
theorem areRows_of_report {found : Report} (hfound : report r s (.compare expression o) = .ok found)
    (hcode : found.code = .success) :
    ∃ c rows, found = .comparison c rows ∧ AreRows r s expression o c rows := by
  obtain ⟨c, hc, hassigns⟩ :=
    (succeeds_compare_iff hr hquiet hne).mp ⟨found, hfound, hcode⟩
  obtain ⟨rows, hrows, hmap, hall⟩ := compare_of_assigns hr hquiet (labels s o) hc hassigns
  refine ⟨c, rows, Except.ok.inj (hfound.symm.trans hrows), ⟨hmap,
    fun row hrow => (hall row hrow).get?_eq, fun row hrow => (hall row hrow).evaluate_eq,
    fun row hrow => (hall row hrow).reached, fun row hrow other hother => ?_⟩⟩
  rw [(hall row hrow).tree_eq, (hall other hother).tree_eq]
  exact render_instantiate_leaf c.formula

/-- A comparison comes to a report, which is printed exactly if the degrees of its rows are
printable. -/
theorem exists_report_compare (hk : k.Lawful) (s : Settings) (expression : String) (o : Options) :
    ∃ found, report r s (.compare expression o) = .ok found ∧
      ((∃ text, found.printed k o.json = .ok text) ↔ ∀ c rows, found = .comparison c rows →
        ∀ row ∈ rows, Printable k o.json row.name row.valuation.value.raw) := by
  rcases assigns_or_mistake expression o.assignments with ⟨c, hc, hassigns⟩ | hmistake
  · obtain ⟨rows, hrows, -⟩ := compare_of_assigns hr hquiet (labels s o) hc hassigns
    refine ⟨_, hrows, (exists_printed_comparison_iff hk (unmarked_canonical hc)).trans
      ⟨?_, fun h => h _ _ rfl⟩⟩
    rintro h _ _ ⟨⟩
    exact h
  · obtain ⟨-, f, -, hreport⟩ := compare_of_mistake hr hquiet (labels s o) hne hmistake
    obtain ⟨text, htext, -⟩ := failure_printed hk f .mistake o.json
    exact ⟨_, hreport, iff_of_true ⟨text, htext⟩ fun _ _ h => by cases h⟩

/-- A comparison finishes exactly if nothing is wrong, if what the operation sets come to is
printable. -/
theorem finishes_compare_iff (hk : k.Lawful)
    (hprintable : ∀ e ∈ r.entries, ∀ n, e.2.Reached n → Printable k o.json e.1 n) :
    Finishes (handle k r s (.compare expression o)) ↔
      ∃ c, Compiled.ofSource expression = .ok c ∧ Assigns o.assignments c := by
  refine (finishes_iff fun found hfound hcode => ?_).trans (succeeds_compare_iff hr hquiet hne)
  obtain ⟨found', hfound', hprinted⟩ :=
    exists_report_compare hr hquiet hne hk s expression o
  obtain rfl := Except.ok.inj (hfound'.symm.trans hfound)
  obtain ⟨c, rows, rfl, hall⟩ := areRows_of_report hr hquiet hne hfound hcode
  refine hprinted.mpr fun c' rows' heq row hrow => ?_
  obtain ⟨rfl, rfl⟩ := Report.comparison.inj heq
  exact hprintable _ (hall.mem_entries hr hrow) _ (hall.reached row hrow)

end Registered

/-- An evaluation under a name finishes exactly if nothing is wrong, if what its operation set comes
to is printable. -/
theorem finishes_evaluationUnder_iff {p : Opset} (hk : k.Lawful) (hp : r.get? name = some p)
    (hquiet : p.Quiet) (hprintable : ∀ n, p.Reached n → Printable k o.json p.name n) :
    Finishes (evaluationUnder k r s expression o name) ↔
      ∃ c, Compiled.ofSource expression = .ok c ∧ Assigns o.assignments c := by
  rw [← succeeds_evaluate_iff hp hquiet, ← report_evaluationUnder]
  refine finishes_iff fun found hfound hcode => ?_
  rw [report_evaluationUnder] at hfound
  obtain ⟨c, hc, hassigns⟩ := (succeeds_evaluate_iff hp hquiet).mp ⟨found, hfound, hcode⟩
  obtain ⟨d, hreached, -, hreport⟩ := evaluate_of_assigns (labels s o) hp hquiet hc hassigns
  obtain rfl := Except.ok.inj (hfound.symm.trans hreport)
  exact (exists_printed_iff_of_ofSource hk hc).mpr (hprintable d hreached)

/-- **A comparison agrees with the evaluations under the registered operation sets.**  On every
lawful console and over every registry with something in it, as there is after the catalogue
(`Registry.entries_ne_nil`), and whose hooks do not raise on what they come to from degrees, with
every expression, list of assigned values and choice of labels and form of the report:

* if whatever the sets come to is printable under their names and the names they are registered
  under, then the comparison ends with a success exactly if the evaluation under every registered
  name does, and that is so exactly if it does under one of them.  Its rows are then the registered
  names in order, and the evaluation under the name of a row ends with the tree and the degree of
  the row; all trees are written alike;
* whatever they come to, all this holds of what the commands report;
* whatever they come to, the comparison has a report, and it is printed, and so ends, exactly if the
  degrees of its rows are printable. -/
theorem comparison_agrees (hk : k.Lawful) (hr : r = Registry.empty.afterAll history)
    (hne : r.entries ≠ []) (hquiet : ∀ e ∈ r.entries, e.2.Quiet) (s : Settings)
    (expression : String) (o : Options) :
    ((∀ e ∈ r.entries, ∀ n, e.2.Reached n →
        Printable k o.json e.1 n ∧ Printable k o.json e.2.name n) →
      ((Finishes (handle k r s (.compare expression o)) ↔
          ∀ name ∈ r.names, Finishes (evaluationUnder k r s expression o name)) ∧
        ((∀ name ∈ r.names, Finishes (evaluationUnder k r s expression o name)) ↔
          ∃ name ∈ r.names, Finishes (evaluationUnder k r s expression o name))) ∧
      ∀ found text, handle k r s (.compare expression o) = .ok (found, text) →
        found.code = .success → ∃ c rows, found = .comparison c rows ∧
          AreRows r s expression o c rows ∧
          ∀ row ∈ rows, ∃ text, evaluationUnder k r s expression o row.name =
            .ok (.evaluation c row.opset row.valuation, text)) ∧
    (((Succeeds (report r s (.compare expression o)) ↔
          ∀ name ∈ r.names, Succeeds (evaluate r name expression o.assignments (labels s o))) ∧
        ((∀ name ∈ r.names, Succeeds (evaluate r name expression o.assignments (labels s o))) ↔
          ∃ name ∈ r.names, Succeeds (evaluate r name expression o.assignments (labels s o)))) ∧
      (∀ found, report r s (.compare expression o) = .ok found → found.code = .success →
        ∃ c rows, found = .comparison c rows ∧ AreRows r s expression o c rows)) ∧
    (∃ found, report r s (.compare expression o) = .ok found ∧
      handle k r s (.compare expression o) = (found.printed k o.json).map (found, ·) ∧
      ((∃ text, found.printed k o.json = .ok text) ↔ ∀ c rows, found = .comparison c rows →
        ∀ row ∈ rows, Printable k o.json row.name row.valuation.value.raw)) ∧
    r.names.Pairwise (· ≤ ·) ∧ r.names.Perm (r.entries.map Prod.fst) := by
  have hfiled : r.Filed := hr ▸ Registry.filed_empty.afterAll history
  have hnames : r.names ≠ [] := fun h => hne (List.map_eq_nil_iff.mp
    (List.perm_nil.mp (h ▸ r.names_perm).symm))
  have hcompare : Succeeds (report r s (.compare expression o)) ↔
      ∃ c, Compiled.ofSource expression = .ok c ∧ Assigns o.assignments c :=
    succeeds_compare_iff hfiled hquiet hnames
  have hevaluate : ∀ name ∈ r.names,
      (Succeeds (evaluate r name expression o.assignments (labels s o)) ↔
        ∃ c, Compiled.ofSource expression = .ok c ∧ Assigns o.assignments c) := by
    intro name hname
    obtain ⟨p, hp, hpquiet⟩ := exists_quiet_of_mem_names hfiled hquiet hname
    exact succeeds_evaluate_iff hp hpquiet
  have hrows : ∀ found, report r s (.compare expression o) = .ok found → found.code = .success →
      ∃ c rows, found = .comparison c rows ∧ AreRows r s expression o c rows := fun found =>
    areRows_of_report hfiled hquiet hnames
  obtain ⟨found, hfound, hprinted⟩ :=
    exists_report_compare hfiled hquiet hnames hk s expression o
  refine ⟨fun hprintable => ?_, ⟨iff_forall_iff_exists hnames hcompare hevaluate, hrows⟩,
    ⟨found, hfound, handle_of_report hfound, hprinted⟩, r.names_sorted, r.names_perm⟩
  have hfinishes : Finishes (handle k r s (.compare expression o)) ↔
      ∃ c, Compiled.ofSource expression = .ok c ∧ Assigns o.assignments c :=
    finishes_compare_iff hfiled hquiet hnames hk fun e he n hn => (hprintable e he n hn).1
  have hunder : ∀ name ∈ r.names, (Finishes (evaluationUnder k r s expression o name) ↔
      ∃ c, Compiled.ofSource expression = .ok c ∧ Assigns o.assignments c) := by
    intro name hname
    obtain ⟨p, hmem, hp⟩ := hfiled.get?_of_mem_names hname
    exact finishes_evaluationUnder_iff hk hp (hquiet _ hmem)
      fun n hn => (hprintable _ hmem n hn).2
  refine ⟨iff_forall_iff_exists hnames hfinishes hunder,
    fun found' text hhandle hcode => ?_⟩
  have hreport := report_of_handle hhandle
  obtain ⟨c, rows, rfl, hall⟩ := hrows _ hreport hcode
  refine ⟨c, rows, rfl, hall, fun row hrow => ?_⟩
  have hname : row.name ∈ r.names := hall.names_eq ▸ List.mem_map_of_mem hrow
  obtain ⟨found'', text', hhandle', -⟩ :=
    (hunder _ hname).mpr (hcompare.mp ⟨_, hreport, hcode⟩)
  have hreport' := report_of_handle hhandle'
  rw [report_evaluationUnder, hall.evaluate_eq row hrow] at hreport'
  obtain rfl := Except.ok.inj hreport'
  exact ⟨text', hhandle'⟩

theorem quiet_catalogue : ∀ e ∈ Registry.catalogue.entries, e.2.Quiet := by
  intro e he
  obtain ⟨p, hp, rfl⟩ := List.mem_map.mp he
  exact Catalogue.quiet_of_mem hp

/-- The text `!a | 0.5` under the catalogue, reported as a document: a row for every set with a
value for the name, and no success without. -/
theorem notA_or_half_compared :
    (∃ c rows text, handle .standard .catalogue plainSettings
        (.compare "!a | 0.5" ⟨[("a", .one)], none, true, none⟩) = .ok (.comparison c rows, text) ∧
      rows.map Comparison.name = ["hamacher0", "hamacher1", "hamacher2", "yager1", "yagerinf"] ∧
      ∀ row ∈ rows, ∃ text, evaluationUnder .standard .catalogue plainSettings "!a | 0.5"
        ⟨[("a", .one)], none, true, none⟩ row.name =
          .ok (.evaluation c row.opset row.valuation, text)) ∧
    ¬ Finishes (handle .standard .catalogue plainSettings
      (.compare "!a | 0.5" (plainOptions []))) := by
  have hc := Compiled.ofSource_notAOrHalf
  have hagrees := fun o => (comparison_agrees Console.standard_lawful
    Registry.catalogue_eq_afterAll (Registry.entries_ne_nil []) quiet_catalogue plainSettings
    "!a | 0.5" o).1 fun e he n hn => by
      obtain ⟨p, hp, rfl⟩ := List.mem_map.mp he
      have hprintable : Printable .standard o.json p.name n :=
        printable_of_mem Console.standard_lawful hp hn
      exact ⟨hprintable, hprintable⟩
  have hmem : "hamacher1" ∈ Registry.catalogue.names := by
    rw [Registry.names_catalogue]
    decide
  have hmem' : Catalogue.hamacher1 ∈ Catalogue.all := by simp [Catalogue.all]
  have hfinishes : ∀ o, Finishes
      (evaluationUnder .standard .catalogue plainSettings "!a | 0.5" o "hamacher1") ↔
        ∃ c, Compiled.ofSource "!a | 0.5" = .ok c ∧ Assigns o.assignments c := by
    intro o
    have hp : Registry.catalogue.get? "hamacher1" = some Catalogue.hamacher1 :=
      get?_plainOptions []
    exact finishes_evaluationUnder_iff Console.standard_lawful hp (Catalogue.quiet_of_mem hmem')
      fun _ hn => printable_of_mem Console.standard_lawful hmem' hn
  constructor
  · obtain ⟨⟨hall, hone⟩, hrows⟩ := hagrees ⟨[("a", .one)], none, true, none⟩
    obtain ⟨found, text, hhandle, hcode⟩ := hall.mpr <| hone.mpr ⟨"hamacher1", hmem,
      (hfinishes _).mpr ⟨_, hc, assigns_notAOrHalf⟩⟩
    obtain ⟨c', rows, rfl, hrows, hrow⟩ := hrows found text hhandle hcode
    exact ⟨c', rows, text, hhandle, hrows.names_eq.trans Registry.names_catalogue, hrow⟩
  · obtain ⟨⟨hall, -⟩, -⟩ := hagrees (plainOptions [])
    intro h
    obtain ⟨c', hc', hassigns⟩ := (hfinishes _).mp (hall.mp h "hamacher1" hmem)
    obtain rfl := Except.ok.inj (hc.symm.trans hc')
    exact absurd (hassigns.mem_names "a" (by decide)) List.not_mem_nil

/-- **A comparison may raise where an evaluation succeeds**: a registered set whose name closes a
tag stands in the way of the table, and not in the way of the evaluation under another set. -/
theorem unprinted_comparison :
    (∀ e ∈ (catalogueAnd closing).entries, e.2.Quiet) ∧
    ("hamacher1" ∈ (catalogueAnd closing).names ∧
      Finishes (evaluationUnder .standard (catalogueAnd closing) plainSettings "!a | 0.5"
        (plainOptions [("a", .one)]) "hamacher1")) ∧
    ∃ f, handle .standard (catalogueAnd closing) plainSettings
      (.compare "!a | 0.5" (plainOptions [("a", .one)])) = .error f := by
  have hc := Compiled.ofSource_notAOrHalf
  have hquiet : ∀ e ∈ (catalogueAnd closing).entries, e.2.Quiet := by
    rw [entries_closing]
    exact List.forall_mem_append.mpr
      ⟨quiet_catalogue, List.forall_mem_singleton.mpr quiet_closing⟩
  have hfiled := filed_catalogueAnd closing
  have hmem : Catalogue.hamacher1 ∈ Catalogue.all := by simp [Catalogue.all]
  have hentry : ("hamacher1", Catalogue.hamacher1) ∈ (catalogueAnd closing).entries :=
    entries_closing ▸ List.mem_append_left _ (List.mem_map.mpr ⟨_, hmem, rfl⟩)
  have hclosing : "[/]" ∈ (catalogueAnd closing).names := Registry.mem_names.mpr
    ⟨closing, entries_closing ▸ List.mem_append_right _ (List.mem_singleton_self _)⟩
  refine ⟨hquiet, ⟨Registry.mem_names.mpr ⟨_, hentry⟩, ?_⟩, ?_⟩
  · have hp := hfiled.get?_of_mem hentry
    exact (finishes_evaluationUnder_iff Console.standard_lawful hp (Catalogue.quiet_of_mem hmem)
      fun _ hn => printable_of_mem Console.standard_lawful hmem hn).mpr ⟨_, hc, assigns_notAOrHalf⟩
  · obtain ⟨rows, hrows, hmap, -⟩ := compare_of_assigns hfiled hquiet
      (labels plainSettings (plainOptions [("a", .one)])) hc assigns_notAOrHalf
    obtain ⟨row, hrow, hname⟩ := List.mem_map.mp (hmap ▸ hclosing)
    have hprinted : (∃ text, (Report.comparison _ rows).printed .standard false = .ok text) ↔ _ :=
      exists_printed_comparison_iff Console.standard_lawful (unmarked_canonical hc)
    obtain ⟨f, hf⟩ := Outcome.exists_error fun text htext =>
      not_printable_closing _ (hname ▸ hprinted.mp ⟨text, htext⟩ row hrow)
    have hreport : report (catalogueAnd closing) plainSettings
        (.compare "!a | 0.5" (plainOptions [("a", .one)])) = .ok (.comparison _ rows) := hrows
    exact ⟨f, by rw [handle_of_report hreport]; exact congrArg (Except.map _) hf⟩

end Site

end FuzzyLogic
