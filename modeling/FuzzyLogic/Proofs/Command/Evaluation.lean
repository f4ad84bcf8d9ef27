import FuzzyLogic.Command.Run
import FuzzyLogic.Proofs.Command.Assignment
import FuzzyLogic.Proofs.Command.Invocation
import FuzzyLogic.Proofs.Command.Presentation
import FuzzyLogic.Proofs.Host.Markup
import FuzzyLogic.Proofs.Opset.Names
import FuzzyLogic.Proofs.Opset.Reach

/-!
# Proofs/Command/Evaluation — how an evaluation ends

Only mistakes are reported; whatever else is raised ends the command.  An evaluation goes through
compiling, binding and building, which come to a mistake or to a tree (`evaluate_of_mistake`), and
then through the hooks, whose faults would not be caught.  Quiet hooks have none, so that **an
evaluation under a quiet operation set always comes to a report** (`evaluate_of_assigns`), and to a
success exactly if nothing is wrong with the expression and the values.

A mistake is then always printed, and a success exactly if its degree is printable under the name
of the operation set.  This name goes into markup as it is, and a hook may come to numbers beyond
the doubles, so that there are sets under which evaluations do not end as they should
(`unprinted_evaluations`).
-/

namespace FuzzyLogic

namespace Report

open Compiled

variable {r : Registry} {expression name : String} {assignments : List (String × Binary64)}
  {labels json : Bool} {o p : Opset} {c : Compiled} {f : Fault} {m : Membership} {k : Console}

/-! ## Reports -/

/-- **A mistake is reported.** -/
theorem evaluate_of_mistake (labels : Bool) (ho : r.get? name = some o)
    (h : Mistake expression assignments o f) :
    evaluate r name expression assignments labels = .ok (.failure f .mistake) := by
  have hbuild : (do
      let c ← ofSource expression
      let tree ← c.assign (numbers assignments) labels o
      return (c, tree) : Except Fault (Compiled × Node)) = .error f := by
    cases hc : ofSource expression with
    | error e =>
      cases h with
      | syntaxFault hf =>
        obtain rfl := Except.error.inj (hc.symm.trans hf)
        rfl
      | outOfRange hc' => rw [hc] at hc'; cases hc'
      | unboundName hc' => rw [hc] at hc'; cases hc'
    | ok c =>
      change c.assign (numbers assignments) labels o >>= _ = _
      rw [assign_of_mistake h hc]
      rfl
  simp only [evaluate, ho]
  rw [hbuild]
  exact if_pos h.isMistake

/-- The value last assigned to a name is a degree if all are. -/
theorem isDegree_degreeOf (h : ∀ a ∈ assignments, a.2.isDegree = true) (name : String) :
    (degreeOf assignments name).isDegree = true := by
  rw [degreeOf]
  cases hfound : assignments.reverse.lookup name with
  | none => decide
  | some x => exact h _ (List.mem_reverse.mp (Entries.mem_of_lookup hfound))

/-- The leaves of a formula over assigned values are degrees. -/
theorem reached_instantiate (hc : ofSource expression = .ok c) (h : Assigns assignments c) :
    ∀ m ∈ (c.formula.instantiate o (leaf assignments labels o)).leaves, o.Reached m.raw := by
  refine Formula.forall_leaves_instantiate (fun n _ m hm => ?_) fun value hvalue =>
    .degree ((legible_of_ofSource hc).isDegree value hvalue)
  have hraw : m.raw = .float (degreeOf assignments n) := by
    cases labels <;> rw [List.mem_singleton.mp hm]
  rw [hraw]
  exact .degree (isDegree_degreeOf h.isDegree n)

/-- **Quiet hooks give a degree**, if nothing is wrong. -/
theorem evaluate_of_assigns (labels : Bool) (ho : r.get? name = some o) (hquiet : o.Quiet)
    (hc : ofSource expression = .ok c) (h : Assigns assignments c) :
    ∃ d, o.Reached d ∧
      (c.formula.instantiate o (leaf assignments labels o)).evaluate = .ok ⟨d, o⟩ ∧
      evaluate r name expression assignments labels = .ok (.evaluation c o
        ⟨c.formula.instantiate o (leaf assignments labels o), ⟨d, o⟩⟩) := by
  obtain ⟨d, hd, hreached⟩ := Node.exists_evaluate hquiet
    (Formula.uniform_instantiate fun n _ => uniform_leaf) (reached_instantiate hc h)
  refine ⟨d, hreached, hd, ?_⟩
  have hbuild : (do
      let c ← ofSource expression
      let tree ← c.assign (numbers assignments) labels o
      return (c, tree) : Except Fault (Compiled × Node)) =
      .ok (c, c.formula.instantiate o (leaf assignments labels o)) := by
    rw [hc]
    change c.assign (numbers assignments) labels o >>= _ = _
    rw [assign_of_assigns hc h]
    rfl
  simp only [evaluate, ho]
  rw [hbuild]
  exact congrArg (Except.map _) hd

/-- Under an operation set that is there, a report is never about a missing one. -/
theorem code_of_evaluate {found : Report} (ho : r.get? name = some o)
    (h : evaluate r name expression assignments labels = .ok found) : found.code ≠ .misuse := by
  simp only [evaluate, ho] at h
  split at h
  case h_1 f _ =>
    unfold ofMistake at h
    split at h
    case isTrue =>
      obtain rfl := Except.ok.inj h
      nofun
    case isFalse => cases h
  case h_2 =>
    obtain ⟨value, -, rfl⟩ := Outcome.map_eq_ok.mp h
    nofun

/-! ## Printing -/

theorem unmarked_leaf (hname : Unmarked name) : Unmarked (leaf assignments labels o name).render := by
  cases labels with
  | true => exact hname
  | false => exact unmarked_text _

/-- An evaluation over assigned values is printed exactly if its degree is printable. -/
theorem exists_printed_iff_of_ofSource (hk : k.Lawful) (hc : ofSource expression = .ok c) :
    (∃ text, (evaluation c p ⟨c.formula.instantiate o (leaf assignments labels o), m⟩).printed k
        json = .ok text) ↔ Printable k json p.name m.raw := by
  have hnames := (legible_of_ofSource hc).unmarked_name
  exact exists_printed_evaluation_iff hk (unmarked_source hc) (unmarked_canonical hc)
    (unmarked_instantiate fun n hn => unmarked_leaf (hnames n hn))

/-- Whatever the sets of the catalogue come to is printable. -/
theorem printable_of_mem {n : Number} (hk : k.Lawful) (ho : o ∈ Catalogue.all)
    (hn : o.Reached n) : Printable k json o.name n := by
  obtain ⟨x, rfl, -⟩ := hn.of_preserves (Catalogue.preserves_of_mem ho) fun x hx => ⟨x, rfl, hx⟩
  have hname : Unmarked o.name := by
    rcases Catalogue.mem_all.mp ho with rfl | rfl | rfl | rfl | rfl <;> decide
  cases json with
  | true => exact rfl
  | false => exact ⟨hk.shows_unmarked hname, x, rfl⟩

end Report

namespace Site

open Report

variable {k : Console} {r : Registry} {history : List (Definition × Nat)} {s : Settings}
  {expression : String} {o : Options} {found : Report} {command : Command} {p : Opset}
  {c : Compiled} {f : Fault} {text : String}

/-- **What is handled is what is reported, once it is printed.** -/
theorem handle_of_report (h : report r s command = .ok found) :
    handle k r s command = (found.printed k (options command).json).map (found, ·) := by
  rw [handle, h]
  rfl

/-- A command that is handled has its report. -/
theorem report_of_handle (h : handle k r s command = .ok (found, text)) :
    report r s command = .ok found := by
  obtain ⟨found', hfound, hprinted⟩ := Outcome.bind_eq_ok.mp h
  obtain ⟨text', -, hpair⟩ := Outcome.bind_eq_ok.mp hprinted
  obtain rfl := (Prod.mk.inj (Except.ok.inj hpair)).1
  exact hfound

/-- A mistake is handled. -/
theorem handle_eval_of_mistake (hk : k.Lawful) (hp : r.get? (opsetName s o) = some p)
    (h : Mistake expression o.assignments p f) : ∃ text,
      (failure f .mistake).printed k o.json = .ok text ∧
        handle k r s (.eval expression o) = .ok (.failure f .mistake, text) := by
  have hreport : report r s (.eval expression o) = .ok (.failure f .mistake) :=
    evaluate_of_mistake (labels s o) hp h
  obtain ⟨text, htext, -⟩ := failure_printed hk f .mistake o.json
  refine ⟨text, htext, (handle_of_report hreport).trans ?_⟩
  change ((failure f .mistake).printed k o.json).map _ = _
  rw [htext]
  rfl

/-- So is an evaluation over assigned values, if its degree is printable. -/
theorem handle_eval_of_assigns (hk : k.Lawful) (hp : r.get? (opsetName s o) = some p)
    (hquiet : p.Quiet) (hc : Compiled.ofSource expression = .ok c)
    (h : Assigns o.assignments c) : ∃ v,
      c.assign (numbers o.assignments) (labels s o) p = .ok v.tree ∧
      v.tree.evaluate = .ok v.value ∧ p.Reached v.value.raw ∧
      handle k r s (.eval expression o) =
        ((evaluation c p v).printed k o.json).map (evaluation c p v, ·) ∧
      ((∃ text, (evaluation c p v).printed k o.json = .ok text) ↔
        Printable k o.json p.name v.value.raw) := by
  obtain ⟨d, hreached, heval, hreport⟩ := evaluate_of_assigns (labels s o) hp hquiet hc h
  change report r s (.eval expression o) = _ at hreport
  exact ⟨⟨_, ⟨d, p⟩⟩, assign_of_assigns hc h, heval, hreached, handle_of_report hreport,
    exists_printed_iff_of_ofSource hk hc⟩

/-- And it raises if its degree is not. -/
theorem handle_eval_of_not_printable (hk : k.Lawful) (hp : r.get? (opsetName s o) = some p)
    (hquiet : p.Quiet) (hc : Compiled.ofSource expression = .ok c)
    (h : Assigns o.assignments c) (hvalue : ∀ m,
      (c.formula.instantiate p (leaf o.assignments (labels s o) p)).evaluate = .ok m →
        ¬ Printable k o.json p.name m.raw) :
    ∃ f, handle k r s (.eval expression o) = .error f := by
  obtain ⟨v, htree, heval, -, hhandle, hprinted⟩ :=
    handle_eval_of_assigns (s := s) hk hp hquiet hc h
  obtain htree : _ = v.tree := Except.ok.inj ((assign_of_assigns hc h).symm.trans htree)
  obtain ⟨f, hf⟩ := Outcome.exists_error fun text htext =>
    hvalue v.value (htree ▸ heval) (hprinted.mp ⟨text, htext⟩)
  exact ⟨f, by rw [hhandle, hf]; rfl⟩

/-- **Valid settings, and a registered choice or none, name an operation set that is there.** -/
theorem exists_get?_opsetName (hr : r.Filed) (hvalid : s.isValid r = true)
    (ho : Invocation.Chooses r o) : ∃ p, r.get? (opsetName s o) = some p := by
  have hdefault : ∃ p, r.get? s.defaultOpset = some p :=
    Option.isSome_iff_exists.mp (Settings.isSome_get?_of_isValid hvalid)
  unfold opsetName
  split
  case h_1 name hname =>
    split
    case isTrue => exact hdefault
    case isFalse =>
      obtain ⟨p, -, hp⟩ := hr.get?_of_mem_names (ho name hname)
      exact ⟨p, hp⟩
  case h_2 => exact hdefault

/-- **How an evaluation ends.**  On every lawful console and under every registry, with every
expression, list of assigned values and choice of labels and form of the report, under an operation
set that is there and whose hooks do not raise on what they come to from degrees:

* if whatever they come to is printable under the name of the set, then the evaluation ends, and it
  ends with 0 exactly if the expression compiles, every assigned value is a degree and every name of
  the expression is assigned.  Otherwise it ends with 1 and prints a failure: for the syntax if that
  is wrong, else for the first value that is no degree, else for the first name that is not
  assigned;
* whatever they come to, an evaluation with nothing wrong about it comes to the degree of the tree,
  and is printed, and so ends, exactly if that degree is printable;
* whatever they come to, a mistake is printed and the evaluation ends;
* something is wrong with the expression and the values, or nothing is.

Settings that are valid name an operation set that is there, and a command line chooses a registered
one or none, so that then no evaluation ends with 2. -/
theorem evaluation_ends (hk : k.Lawful) (hr : r = Registry.empty.afterAll history) (s : Settings)
    (expression : String) (o : Options) :
    (∀ p, r.get? (opsetName s o) = some p → p.Quiet →
      ((∀ n, p.Reached n → Printable k o.json p.name n) →
        ∃ found text, handle k r s (.eval expression o) = .ok (found, text) ∧
          (found.code.number = 0 ↔
            ∃ c, Compiled.ofSource expression = .ok c ∧ Assigns o.assignments c) ∧
          (found.code.number ≠ 0 → found.code.number = 1 ∧
            ∃ f, found = .failure f .mistake ∧ Mistake expression o.assignments p f ∧
              found.printed k o.json = .ok text)) ∧
      (∀ c, Compiled.ofSource expression = .ok c → Assigns o.assignments c → ∃ v,
        c.assign (numbers o.assignments) (labels s o) p = .ok v.tree ∧
        v.tree.evaluate = .ok v.value ∧ p.Reached v.value.raw ∧
        handle k r s (.eval expression o) =
          ((evaluation c p v).printed k o.json).map (evaluation c p v, ·) ∧
        ((∃ text, (evaluation c p v).printed k o.json = .ok text) ↔
          Printable k o.json p.name v.value.raw)) ∧
      (∀ f, Mistake expression o.assignments p f → ∃ text,
        (failure f .mistake).printed k o.json = .ok text ∧
          handle k r s (.eval expression o) = .ok (.failure f .mistake, text)) ∧
      ((∃ c, Compiled.ofSource expression = .ok c ∧ Assigns o.assignments c) ∨
        ∃ f, Mistake expression o.assignments p f)) ∧
    (s.isValid r = true →
      (∃ p, r.get? s.defaultOpset = some p) ∧
      (Invocation.Chooses r o → ∀ found text,
        handle k r s (.eval expression o) = .ok (found, text) → found.code.number ≠ 2) ∧
      ∀ arguments verbosity?,
        Invocation.read r arguments = .ok ⟨verbosity?, some (.eval expression o)⟩ →
        Invocation.Chooses r o) := by
  have hfiled : r.Filed := hr ▸ Registry.filed_empty.afterAll history
  refine ⟨fun p hp hquiet => ⟨fun hprintable => ?_, fun c hc hassigns =>
      handle_eval_of_assigns hk hp hquiet hc hassigns, fun f hf => handle_eval_of_mistake hk hp hf,
      (assigns_or_mistake expression o.assignments).imp_right fun h => h p⟩,
    fun hvalid => ⟨?_, fun ho found text hfound => ?_,
      fun _ _ h => Invocation.chooses_of_read h rfl⟩⟩
  · rcases assigns_or_mistake expression o.assignments with ⟨c, hc, hassigns⟩ | hmistake
    · obtain ⟨v, -, -, hreached, hhandle, hprinted⟩ :=
        handle_eval_of_assigns (s := s) hk hp hquiet hc hassigns
      obtain ⟨text, htext⟩ := hprinted.mpr (hprintable _ hreached)
      refine ⟨.evaluation c p v, text, by rw [hhandle, htext]; rfl,
        iff_of_true rfl ⟨c, hc, hassigns⟩, fun h => absurd rfl h⟩
    · obtain ⟨f, hf⟩ := hmistake p
      obtain ⟨text, htext, hhandle⟩ := handle_eval_of_mistake (s := s) hk hp hf
      exact ⟨_, text, hhandle, iff_of_false nofun hf.not_assigns,
        fun _ => ⟨rfl, f, rfl, hf, htext⟩⟩
  · exact Option.isSome_iff_exists.mp (Settings.isSome_get?_of_isValid hvalid)
  · obtain ⟨p, hp⟩ := exists_get?_opsetName hfiled hvalid ho
    have hcode := code_of_evaluate hp (report_of_handle hfound)
    cases hkind : found.code with
    | misuse => exact absurd hkind hcode
    | success => nofun
    | mistake => nofun

/-- Settings under which the catalogue is valid. -/
def plainSettings : Settings := ⟨"INFO", "logs", false, "hamacher1", true⟩

/-- An evaluation with values for names, reported as a table. -/
def plainOptions (assignments : List (String × Binary64)) : Options :=
  ⟨assignments, none, false, none⟩

theorem get?_plainOptions (assignments : List (String × Binary64)) :
    Registry.catalogue.get? (opsetName plainSettings (plainOptions assignments)) =
      some Catalogue.hamacher1 := by
  change Registry.catalogue.find? (Text.lower "hamacher1") = _
  rw [show Text.lower "hamacher1" = "hamacher1" by decide +kernel]
  rfl

theorem assigns_notAOrHalf : Assigns [("a", .one)] Compiled.notAOrHalf := ⟨by decide, by decide⟩

/-- The text `!a | 0.5` with a degree, with two values that are no degrees, and with none. -/
theorem notA_or_half_ends :
    plainSettings.isValid Registry.catalogue = true ∧
    (∃ found text, handle .standard .catalogue plainSettings
        (.eval "!a | 0.5" (plainOptions [("a", .two), ("a", .one)])) = .ok (found, text) ∧
      found = .failure (.outOfRange .two "Hamacher1") .mistake ∧ found.code.number = 1) ∧
    (∃ found text, handle .standard .catalogue plainSettings
        (.eval "!a | 0.5" (plainOptions [])) = .ok (found, text) ∧
      found = .failure (.unboundName "a" "!a | 0.5" ["a"]) .mistake ∧ found.code.number = 1) ∧
    ∃ found text, handle .standard .catalogue plainSettings
        (.eval "!a | 0.5" (plainOptions [("a", .one)])) = .ok (found, text) ∧
      found.code.number = 0 := by
  have hc := Compiled.ofSource_notAOrHalf
  have hnames := Compiled.names_notAOrHalf
  have hmem : Catalogue.hamacher1 ∈ Catalogue.all := by simp [Catalogue.all]
  have hends := fun assignments =>
    (((evaluation_ends Console.standard_lawful Registry.catalogue_eq_afterAll plainSettings
      "!a | 0.5" (plainOptions assignments)).1 _ (get?_plainOptions assignments)
      (Catalogue.quiet_of_mem hmem)).1 fun _ hn =>
        printable_of_mem Console.standard_lawful hmem hn)
  have hmistake : ∀ {assignments f}, Mistake "!a | 0.5" assignments Catalogue.hamacher1 f →
      ∃ found text, handle .standard .catalogue plainSettings
        (.eval "!a | 0.5" (plainOptions assignments)) = .ok (found, text) ∧
        found = .failure f .mistake ∧ found.code.number = 1 := by
    intro assignments f hf
    obtain ⟨found, text, hhandle, hzero, hfailure⟩ := hends assignments
    obtain ⟨hone, f', rfl, hf', -⟩ := hfailure fun h => hf.not_assigns (hzero.mp h)
    obtain rfl := hf.unique hf'
    exact ⟨_, text, hhandle, rfl, hone⟩
  have hrange : [("a", Binary64.two), ("a", Binary64.one)] = [] ++ ("a", .two) :: [("a", .one)] :=
    rfl
  have hfirst : Compiled.notAOrHalf.names = [] ++ "a" :: [] := hnames
  refine ⟨by decide +kernel,
    hmistake (.outOfRange hc hrange (List.forall_mem_nil _) (by decide)), ?_, ?_⟩
  · have hf : Mistake "!a | 0.5" [] Catalogue.hamacher1 _ :=
      .unboundName hc (List.forall_mem_nil _) hfirst (List.forall_mem_nil _) List.not_mem_nil
    rw [hnames] at hf
    exact hmistake hf
  · obtain ⟨found, text, hhandle, hzero, -⟩ := hends [("a", .one)]
    exact ⟨found, text, hhandle, hzero.mpr ⟨_, hc, assigns_notAOrHalf⟩⟩

/-! ## Evaluations that are not printed -/

/-- The catalogue, and an operation set more. -/
def catalogueAnd (p : Opset) : Registry := Registry.catalogue.after (.ofOpset p) p.id

/-- A set whose name closes a tag. -/
def closing : Opset := { Node.choosing with className := "Closing", name := "[/]" }

/-- A set whose hooks come to a number beyond the doubles. -/
def vast : Opset :=
  { Node.choosing with
    className := "Vast"
    name := "vast"
    negationHook := .function fun _ => .ok (.int (Nat.pow 10 400))
    disjunctionHook := .function fun _ _ => .ok (.int (Nat.pow 10 400))
    conjunctionHook := .function fun _ _ => .ok (.int (Nat.pow 10 400)) }

theorem quiet_closing : closing.Quiet :=
  ⟨fun _ => ⟨_, rfl⟩, fun _ _ => ⟨_, rfl⟩, fun _ _ => ⟨_, rfl⟩⟩

theorem quiet_vast : vast.Quiet :=
  ⟨fun _ => ⟨_, rfl⟩, fun _ _ => ⟨_, rfl⟩, fun _ _ => ⟨_, rfl⟩⟩

/-- A concrete set under a new name is registered after the catalogue. -/
theorem entries_catalogueAnd (hconcrete : p.isConcrete = true)
    (hlower : Text.lower p.name = p.name) (hnew : Registry.catalogue.find? p.name = none) :
    (catalogueAnd p).entries = Registry.catalogue.entries ++ [(p.name, p)] := by
  rw [catalogueAnd, Registry.after_ofOpset hconcrete hlower hnew]

theorem filed_catalogueAnd (p : Opset) : (catalogueAnd p).Filed :=
  (Registry.catalogue_eq_afterAll ▸ Registry.filed_empty.afterAll _).after (.ofOpset p) p.id

theorem entries_closing :
    (catalogueAnd closing).entries = Registry.catalogue.entries ++ [("[/]", closing)] :=
  entries_catalogueAnd rfl (by decide +kernel) rfl

theorem get?_closing : (catalogueAnd closing).get? "[/]" = some closing :=
  (filed_catalogueAnd closing).get?_of_mem
    (entries_closing ▸ List.mem_append_right _ (List.mem_singleton_self _))

theorem entries_vast :
    (catalogueAnd vast).entries = Registry.catalogue.entries ++ [("vast", vast)] :=
  entries_catalogueAnd rfl (by decide +kernel) rfl

theorem get?_vast : (catalogueAnd vast).get? "vast" = some vast :=
  (filed_catalogueAnd vast).get?_of_mem
    (entries_vast ▸ List.mem_append_right _ (List.mem_singleton_self _))

/-- No number is printable under a name that closes a tag. -/
theorem not_printable_closing (n : Number) : ¬ Printable .standard false "[/]" n := by
  rintro ⟨⟨shown, hshown⟩, -⟩
  cases Console.line_closingTag.symm.trans hshown

/-- **An evaluation may raise** where nothing is wrong with the expression and the values and the
hooks do not raise: under a set whose name closes a tag, and where the degree is too large to be
written. -/
theorem unprinted_evaluations :
    (∃ c, Compiled.ofSource "!a | 0.5" = .ok c ∧ Assigns [("a", .one)] c) ∧
    (closing.Quiet ∧ (catalogueAnd closing).get? "[/]" = some closing ∧
      ∃ f, handle .standard (catalogueAnd closing) plainSettings
        (.eval "!a | 0.5" ⟨[("a", .one)], none, false, some "[/]"⟩) = .error f) ∧
    vast.Quiet ∧ (catalogueAnd vast).get? "vast" = some vast ∧
      ∃ f, handle .standard (catalogueAnd vast) plainSettings
        (.eval "!a | 0.5" ⟨[("a", .one)], none, false, some "vast"⟩) = .error f := by
  have hc := Compiled.ofSource_notAOrHalf
  refine ⟨⟨_, hc, assigns_notAOrHalf⟩, ⟨quiet_closing, get?_closing, ?_⟩, quiet_vast, get?_vast, ?_⟩
  · exact handle_eval_of_not_printable Console.standard_lawful get?_closing quiet_closing hc
      assigns_notAOrHalf fun m _ => not_printable_closing m.raw
  · refine handle_eval_of_not_printable Console.standard_lawful get?_vast quiet_vast hc
      assigns_notAOrHalf fun m hm => ?_
    rintro ⟨-, x, hx⟩
    have hraw : m.raw = .int (Nat.pow 10 400) := by rw [← Except.ok.inj hm]
    have hlarge : (Number.int (Nat.pow 10 400)).toBinary64 = .error .integerTooLarge := by
      decide +kernel
    rw [hraw, hlarge] at hx
    cases hx

end Site

end FuzzyLogic
