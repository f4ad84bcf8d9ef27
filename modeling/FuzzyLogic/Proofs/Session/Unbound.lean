import FuzzyLogic.Proofs.Session.Building
import Mathlib.Data.List.TakeWhile

/-!
# Proofs/Session/Unbound — what is reported of a name that is bound to nothing

Building stops at the first name, in order of first appearance, that is bound to nothing, if those
before it are bound to operands.  What is bound to the names after it, and which operation set is
given, does not matter (`Compiled.build_of_unbound`, `Session.follows_build_of_unbound`).

The fault says which name it is and offers names.  It offers the names of the formula, whatever the
scope binds (`Compiled.ReportsUnbound`): the name that is bound to nothing is always among them, and
what the scope binds beside the names of the formula never is.  No other fault of building offers
names (`Compiled.firstUnbound_of_offers`).
-/

namespace FuzzyLogic

namespace Compiled

variable {c : Compiled} {isBound : String → Bool} {name : String} {names offered : List String}
  {scope : String → Option Operand} {given : Option Opset} {fault : Fault}
  {bound : List (String × Node)} {literal : Binary64 → Except Fault Node}

/-! ## The first unbound name -/

/-- The first name, in order of first appearance, that is not bound. -/
def firstUnbound? (c : Compiled) (isBound : String → Bool) : Option String :=
  c.names.find? fun n => !isBound n

/-- The names before the first one that is not bound. -/
def boundBefore (c : Compiled) (isBound : String → Bool) : List String := c.names.takeWhile isBound

theorem exists_firstUnbound (isBound : String → Bool) (h : ∃ n ∈ c.names, isBound n = false) :
    ∃ name, c.firstUnbound? isBound = some name := by
  obtain ⟨n, hn, hbound⟩ := h
  exact Option.isSome_iff_exists.mp (List.find?_isSome.mpr ⟨n, hn, by rw [hbound]; rfl⟩)

/-- The names are those before the first unbound one, this one, and others. -/
theorem exists_names_eq (h : c.firstUnbound? isBound = some name) :
    isBound name = false ∧ ∃ after, c.names = c.boundBefore isBound ++ name :: after := by
  obtain ⟨hname, before, after, hnames, hbefore⟩ := List.find?_eq_some_iff_append.mp h
  have hunbound : isBound name = false := by simpa using hname
  have hall : ∀ n ∈ before, isBound n = true := fun n hn => by simpa using hbefore n hn
  refine ⟨hunbound, after, ?_⟩
  rw [boundBefore, hnames, List.takeWhile_append_of_pos hall,
    List.takeWhile_cons_of_neg (by simp [hunbound]), List.append_nil]

/-! ## What is offered -/

/-- What a fault says of the first name that is bound to nothing: which one it is, and the names of
the formula, once each and in order. -/
structure ReportsUnbound (c : Compiled) (isBound : String → Bool) (name : String)
    (offered : List String) (fault : Fault) : Prop where
  first : c.firstUnbound? isBound = some name
  kind_eq : fault.kind = .unboundNameError
  message_eq : fault.message = "Operand '" ++ name ++ "': not bound when building '" ++ c.source ++
    "'. Available: " ++ Fault.commaList offered
  available_eq : fault.available? = some offered
  perm : offered.Perm c.names
  pairwise : offered.Pairwise (· ≤ ·)

theorem reportsUnbound (h : c.firstUnbound? isBound = some name) :
    c.ReportsUnbound isBound name (Fault.sorted c.names) (.unboundName name c.source c.names) where
  first := h
  kind_eq := rfl
  message_eq := by
    have hne : c.names.isEmpty = false :=
      List.isEmpty_eq_false_iff.mpr (List.ne_nil_of_mem (List.mem_of_find?_eq_some h))
    have hquote : "'. Available: " = "'" ++ ". Available: " := by decide
    change _ ++ (if c.names.isEmpty then "" else ". Available: " ++ _) = _
    rw [hne, if_neg Bool.false_ne_true, hquote]
    simp only [String.append_assoc]
  available_eq := rfl
  perm := Fault.sorted_perm _
  pairwise := Fault.sorted_pairwise _

/-- **The name that is bound to nothing is among the names offered.** -/
theorem ReportsUnbound.mem_offered (h : c.ReportsUnbound isBound name offered fault) :
    name ∈ offered ∧ isBound name = false :=
  ⟨h.perm.mem_iff.mpr (List.mem_of_find?_eq_some h.first), (exists_names_eq h.first).1⟩

/-! ## Building -/

/-- **The first unbound name ends the build**, if the names before it stand for trees. -/
theorem build_of_unbound (h : c.firstUnbound? (fun n => (scope n).isSome) = some name)
    (hbefore : ∀ n ∈ c.boundBefore fun n => (scope n).isSome, ∃ x, c.resolve scope n = .ok x) :
    c.build scope given = .error (.unboundName name c.source c.names) := by
  obtain ⟨hname, after, hnames⟩ := exists_names_eq h
  have hnone : scope name = none :=
    Option.isNone_iff_eq_none.mp (Option.isSome_eq_false_iff.mp hname)
  exact build_of_misbound hnames hbefore (by rw [resolve, hnone])

/-! ## No other fault offers names -/

/-- Binding fails at the first name that stands for no tree. -/
theorem exists_of_bindNames_error (h : bindNames (nodes scope) c names = .error fault) :
    ∃ before name after, names = before ++ name :: after ∧
      (∀ n ∈ before, ∃ x, c.resolve scope n = .ok x) ∧ c.resolve scope name = .error fault := by
  induction names with
  | nil => cases h
  | cons n names ih =>
    rw [bindNames_cons] at h
    rcases Outcome.bind_eq_error.mp h with hn | ⟨x, hx, h⟩
    · exact ⟨[], n, names, rfl, nofun, hn⟩
    · rcases Outcome.bind_eq_error.mp h with hrest | ⟨_, -, h⟩
      · obtain ⟨before, name, after, rfl, hbefore, hname⟩ := ih hrest
        exact ⟨n :: before, name, after, rfl, List.forall_mem_cons.mpr ⟨⟨x, hx⟩, hbefore⟩, hname⟩
      · cases h

theorem isSome_of_resolve {x : Node} (h : c.resolve scope name = .ok x) :
    (scope name).isSome = true := by
  cases hscope : scope name with
  | some operand => rfl
  | none =>
    rw [resolve, hscope] at h
    cases h

/-- A name that stands for no tree is reported with an offer only if it is bound to nothing. -/
theorem resolve_offers (hfailing : ∀ f, scope name = some (.failing f) → f.available? = none)
    (h : c.resolve scope name = .error fault) (hoffer : fault.available? = some offered) :
    scope name = none ∧ fault = .unboundName name c.source c.names := by
  rw [resolve] at h
  cases hscope : scope name with
  | none =>
    rw [hscope] at h
    exact ⟨rfl, (Except.error.inj h).symm⟩
  | some operand =>
    rw [hscope] at h
    exfalso
    cases operand with
    | node x => cases h
    | value m => cases h
    | failing f =>
      obtain rfl := Except.error.inj h
      cases (hfailing f hscope).symm.trans hoffer
    | stranger t =>
      obtain rfl := Except.error.inj h
      cases hoffer

/-- Validation offers no names. -/
theorem literalNode_offers_nothing {o : Opset} {value : Binary64}
    (h : literalNode o value = .error fault) : fault.available? = none := by
  rcases Outcome.bind_eq_error.mp (Outcome.map_eq_error.mp h) with h | ⟨x, -, h⟩
  · cases h
  · split at h
    · cases h
    · exact Except.error.inj h ▸ rfl

/-- Joining offers no names. -/
theorem assemble_offers_nothing {f : Formula}
    (hliteral : ∀ value fault, literal value = .error fault → fault.available? = none)
    (h : f.assemble (meaning (nodes scope) bound literal) = .error fault) :
    fault.available? = none := by
  -- Both binary operations end with the check that the two sides have one operation set.
  have hsame : ∀ {node : String} {o p : Opset} {z : Node},
      (do Node.checkSame node o p; return z : Except Fault Node) = .error fault →
        fault.available? = none := by
    intro node o p z h
    rcases Outcome.bind_eq_error.mp h with h | ⟨_, -, h⟩
    · unfold Node.checkSame at h
      split at h
      · cases h
      · exact Except.error.inj h ▸ rfl
    · cases h
  induction f with
  | name text position =>
    simp only [Formula.assemble, meaning] at h
    split at h
    · cases h
    · exact Except.error.inj h ▸ rfl
  | literal value position => exact hliteral value fault h
  | negation f ih =>
    rcases Outcome.bind_eq_error.mp h with h | ⟨_, -, h⟩
    · exact ih h
    · cases h
  | conjunction f g ihf ihg | disjunction f g ihf ihg =>
    rcases Outcome.bind_eq_error.mp h with h | ⟨x, -, h⟩
    · exact ihf h
    rcases Outcome.bind_eq_error.mp h with h | ⟨y, -, h⟩
    · exact ihg h
    · exact hsame h

/-- **Names are offered for no other reason** than that one of them is bound to nothing, unless an
operand offers some when it is asked for its degree. -/
theorem reportsUnbound_of_offers
    (hfailing : ∀ n ∈ c.names, ∀ f, scope n = some (.failing f) → f.available? = none)
    (h : c.build scope given = .error fault) (hoffer : fault.available? = some offered) :
    ∃ name, c.ReportsUnbound (fun n => (scope n).isSome) name offered fault ∧
      fault = .unboundName name c.source c.names := by
  have hassemble : ∀ (bound : List (String × Node)) (literal : Binary64 → Except Fault Node),
      (∀ value fault, literal value = .error fault → fault.available? = none) →
        c.formula.assemble (meaning (nodes scope) bound literal) ≠ .error fault := by
    intro bound literal hliteral h
    rw [assemble_offers_nothing hliteral h] at hoffer
    cases hoffer
  rw [build, buildWith] at h
  rcases Outcome.bind_eq_error.mp h with h | ⟨bound, -, h⟩
  · obtain ⟨before, name, after, hnames, hbefore, hname⟩ := exists_of_bindNames_error h
    obtain ⟨hscope, rfl⟩ := resolve_offers (hfailing name (by simp [hnames])) hname hoffer
    have hfirst : c.firstUnbound? (fun n => (scope n).isSome) = some name := by
      refine List.find?_eq_some_iff_append.mpr ⟨by simp [hscope], before, after, hnames, ?_⟩
      intro n hn
      obtain ⟨x, hx⟩ := hbefore n hn
      simp [isSome_of_resolve hx]
    have hreports := reportsUnbound hfirst
    obtain rfl := Option.some.inj (hreports.available_eq.symm.trans hoffer)
    exact ⟨name, hreports, rfl⟩
  · exfalso
    cases given with
    | some o => exact hassemble _ (literalNode o) (fun _ _ => literalNode_offers_nothing) h
    | none =>
      cases bound with
      | cons e bound =>
        exact hassemble _ (literalNode e.2.opset) (fun _ _ => literalNode_offers_nothing) h
      | nil =>
        cases hliterals : c.formula.literals with
        | cons first rest =>
          rw [hliterals] at h
          cases Except.error.inj h
          cases hoffer
        | nil =>
          rw [hliterals] at h
          exact hassemble _ _ (fun _ _ hundefined => Except.error.inj hundefined ▸ rfl) h

end Compiled

namespace Session

open Compiled

variable {γ : Type} {c : Compiled} {name n : String} {before after : List String} {v : Value}
  {x : Node} {m : Membership} {namespaced keywords overlay : List (String × Value)}

/-! ## Sessions -/

/-- In every session a value makes an operand under a name. -/
def MakesOperand (name : String) (v : Value) : Prop :=
  Follows (fun (_ : Unit) (_ : Value) => True) (operand name v) (.ok ())

theorem makesOperand_of_isTree (h : v.IsTree x) : MakesOperand n v :=
  (follows_operand n (.node h)).map (f := fun _ => ()) fun _ _ _ => trivial

theorem makesOperand_of_says (h : v.Says m) : MakesOperand n v :=
  (follows_operand n (.value h)).map (f := fun _ => ()) fun _ _ _ => trivial

/-- Binding ends at the first name that the overlay binds to nothing. -/
theorem follows_bindNames_of_unbound {P : γ → List (String × Value) → Prop} (c : Compiled)
    (after : List String)
    (hbefore : ∀ n ∈ before, ∃ v, overlay.lookup n = some v ∧ MakesOperand n v)
    (hname : overlay.lookup name = none) :
    Follows P (bindNames (values overlay) c (before ++ name :: after))
      (.error (.unboundName name c.source c.names)) := by
  induction before with
  | nil =>
    rw [List.nil_append, bindNames]
    simp only [values, hname, Option.map_none]
    exact follows_throw _
  | cons n before ih =>
    obtain ⟨⟨v, hv, hmakes⟩, hrest⟩ := List.forall_mem_cons.mp hbefore
    rw [List.cons_append, bindNames]
    simp only [values, hv, Option.map_some]
    exact hmakes.bind_ok fun w _ => (ih hrest).bind_error

/-- **The first unbound name ends the build of a session**, whatever else it is given. -/
theorem follows_build_of_unbound {P : γ → Value → Prop} (serial : Nat) (opset : Option Value)
    (h : c.firstUnbound? (fun n => ((keywords ++ namespaced).lookup n).isSome) = some name)
    (hbefore : ∀ n ∈ c.boundBefore fun n => ((keywords ++ namespaced).lookup n).isSome,
      ∀ v, (keywords ++ namespaced).lookup n = some v → MakesOperand n v) :
    Follows P (build (.compiled serial c) namespaced opset keywords)
      (.error (.unboundName name c.source c.names)) := by
  obtain ⟨hname, after, hnames⟩ := exists_names_eq h
  have hnone : (keywords ++ namespaced).lookup name = none :=
    Option.isNone_iff_eq_none.mp (Option.isSome_eq_false_iff.mp hname)
  have hmakes : ∀ n ∈ c.boundBefore fun n => ((keywords ++ namespaced).lookup n).isSome,
      ∃ v, (keywords ++ namespaced).lookup n = some v ∧ MakesOperand n v := fun n hn => by
    have hbound := List.mem_takeWhile_imp (show n ∈ c.names.takeWhile _ from hn)
    obtain ⟨v, hv⟩ := Option.isSome_iff_exists.mp hbound
    exact ⟨v, hv, hbefore n hn v hv⟩
  -- Names are bound before an operation set is looked for, so that it does not matter which.
  have hbind := follows_bindNames_of_unbound (P := fun (_ : Unit) _ => True) c after hmakes hnone
  rw [← hnames] at hbind
  exact hbind.bind_error

/-- **The first name that is bound to nothing is reported, and offered.**  Of every formula, whether
an operation set is given or not:

* where a scope binds some name to nothing, and the names before the first of these stand for trees,
  building fails.  The fault names this first one and offers the names of the formula, once each and
  in order, so that the name that is bound to nothing is among them;
* so it is in every session, over a namespace overlaid by keyword operands, whatever is bound to
  later names and whatever is given as operation set;
* a build that fails and offers names fails in this way, unless an operand that does not say its
  degree offers some of its own. -/
theorem unbound_name_is_reported (c : Compiled) :
    (∀ scope given, (∃ n ∈ c.names, scope n = none) →
      (∀ n ∈ c.boundBefore fun n => (scope n).isSome, ∃ x, c.resolve scope n = .ok x) →
      ∃ name offered fault, c.build scope given = .error fault ∧
        c.ReportsUnbound (fun n => (scope n).isSome) name offered fault ∧
        name ∈ offered ∧ scope name = none) ∧
    (∀ serial namespaced keywords opset,
      (∃ n ∈ c.names, (keywords ++ namespaced).lookup n = none) →
      (∀ n ∈ c.boundBefore fun n => ((keywords ++ namespaced).lookup n).isSome,
        ∀ v, (keywords ++ namespaced).lookup n = some v → MakesOperand n v) →
      ∃ name offered fault,
        (∀ s, ((build (.compiled serial c) namespaced opset keywords).run.run s).1 =
          .error fault) ∧
        c.ReportsUnbound (fun n => ((keywords ++ namespaced).lookup n).isSome) name offered fault ∧
        name ∈ offered ∧ (keywords ++ namespaced).lookup name = none) ∧
    ∀ scope given fault offered,
      (∀ n ∈ c.names, ∀ f, scope n = some (.failing f) → f.available? = none) →
      c.build scope given = .error fault → fault.available? = some offered →
      ∃ name, c.ReportsUnbound (fun n => (scope n).isSome) name offered fault ∧
        fault = .unboundName name c.source c.names := by
  refine ⟨fun scope given hnone hbefore => ?_,
    fun serial namespaced keywords opset hnone hbefore => ?_,
    fun scope given fault offered hfailing => reportsUnbound_of_offers hfailing⟩
  · obtain ⟨name, hname⟩ := exists_firstUnbound (c := c) (fun n => (scope n).isSome)
      (by simpa using hnone)
    have hreports := reportsUnbound hname
    obtain ⟨hmem, hunbound⟩ := hreports.mem_offered
    exact ⟨name, _, _, build_of_unbound hname hbefore, hreports, hmem, by simpa using hunbound⟩
  · obtain ⟨name, hname⟩ := exists_firstUnbound (c := c)
      (fun n => ((keywords ++ namespaced).lookup n).isSome) (by simpa using hnone)
    have hreports := reportsUnbound hname
    obtain ⟨hmem, hunbound⟩ := hreports.mem_offered
    exact ⟨name, _, _, (follows_build_of_unbound (P := fun (_ : Unit) _ => True) serial opset hname
      hbefore).fault, hreports, hmem, by simpa using hunbound⟩

/-- The text `c & d | b & a` with operands for its first two names, one given as keyword and one in
the namespace: the third one is reported, and all four are offered. -/
theorem third_name_is_reported :
    ∃ c, Compiled.ofSource "c & d | b & a" = .ok c ∧ ∃ fault,
      (∀ s, ((build (.compiled 0 c)
        [("d", .node 2 (.atom ⟨.float .one, Catalogue.hamacher1⟩)
          [.membership 1 ⟨.float .one, Catalogue.hamacher1⟩])] none
        [("c", .membership 1 ⟨.float .one, Catalogue.hamacher1⟩)]).run.run s).1 = .error fault) ∧
      fault.message =
        "Operand 'b': not bound when building 'c & d | b & a'. Available: a, b, c, d" ∧
      fault.available? = some ["a", "b", "c", "d"] := by
  obtain ⟨c, hc, hsource, hnames⟩ : ∃ c, Compiled.ofSource "c & d | b & a" = .ok c ∧
      c.source = "c & d | b & a" ∧ c.names = ["c", "d", "b", "a"] :=
    ⟨⟨"c & d | b & a", .disjunction (.conjunction (.name "c" 0) (.name "d" 4))
      (.conjunction (.name "b" 8) (.name "a" 12))⟩, by cbv, rfl, by decide⟩
  let m : Membership := ⟨.float .one, Catalogue.hamacher1⟩
  let keywords : List (String × Value) := [("c", .membership 1 m)]
  let namespaced : List (String × Value) := [("d", .node 2 (.atom m) [.membership 1 m])]
  have hbefore : ∀ n ∈ c.boundBefore fun n => ((keywords ++ namespaced).lookup n).isSome,
      ∀ v, (keywords ++ namespaced).lookup n = some v → MakesOperand n v := by
    intro n hn v hv
    rw [boundBefore, hnames] at hn
    rcases List.mem_cons.mp hn with rfl | hn
    · exact Option.some.inj hv ▸ makesOperand_of_says (.membership 1 m)
    · obtain rfl := List.mem_singleton.mp hn
      exact Option.some.inj hv ▸ makesOperand_of_isTree (.atom 2 (.mk 1 m))
  obtain ⟨-, hsession, -⟩ := unbound_name_is_reported c
  obtain ⟨name, offered, fault, hrun, hreports, -, -⟩ :=
    hsession 0 namespaced keywords none ⟨"b", by simp [hnames], rfl⟩ hbefore
  have hname : name = "b" := by
    have hfirst := hreports.first
    rw [firstUnbound?, hnames] at hfirst
    exact (Option.some.inj hfirst).symm
  have hoffered : offered = ["a", "b", "c", "d"] :=
    List.Perm.eq_of_pairwise (fun _ _ _ _ => String.le_antisymm) hreports.pairwise (by decide)
      (hreports.perm.trans (by rw [hnames]; decide))
  refine ⟨c, hc, fault, hrun, ?_, hoffered ▸ hreports.available_eq⟩
  rw [hreports.message_eq, hname, hsource, hoffered]
  decide

/-- In `a & b` with an operand for `a` only, the name `b` is reported as bound to nothing, and
offered. -/
theorem unbound_name_is_offered :
    ∃ c, Compiled.ofSource "a & b" = .ok c ∧ ∃ scope : String → Option Operand,
      (∀ n ∈ c.names, n = "a" ∧ (∃ x, c.resolve scope n = .ok x) ∨ n = "b" ∧ scope n = none) ∧
      c.build scope none = .error (.unboundName "b" c.source c.names) ∧
      (Fault.unboundName "b" c.source c.names).message =
        "Operand 'b': not bound when building 'a & b'. Available: a, b" ∧
      ¬ ∀ n ∈ Fault.sorted c.names, (scope n).isSome = true := by
  obtain ⟨c, hc, hsource, hnames⟩ : ∃ c, Compiled.ofSource "a & b" = .ok c ∧
      c.source = "a & b" ∧ c.names = ["a", "b"] :=
    ⟨⟨"a & b", .conjunction (.name "a" 0) (.name "b" 4)⟩, by cbv, rfl, by decide⟩
  let scope : String → Option Operand := fun n =>
    if n = "a" then some (.value ⟨.float .one, Catalogue.hamacher1⟩) else none
  have hfirst : c.firstUnbound? (fun n => (scope n).isSome) = some "b" := by
    rw [firstUnbound?, hnames]
    rfl
  have hbefore : ∀ n ∈ c.boundBefore fun n => (scope n).isSome, ∃ x, c.resolve scope n = .ok x := by
    intro n hn
    rw [boundBefore, hnames] at hn
    obtain rfl := List.mem_singleton.mp hn
    exact ⟨_, rfl⟩
  have hreports := reportsUnbound hfirst
  refine ⟨c, hc, scope, ?_, build_of_unbound hfirst hbefore, ?_, fun hall => ?_⟩
  · rw [hnames]
    exact List.forall_mem_cons.mpr ⟨.inl ⟨rfl, _, rfl⟩, by simp [scope]⟩
  · have hoffered : Fault.sorted c.names = ["a", "b"] :=
      List.Perm.eq_of_pairwise (fun _ _ _ _ => String.le_antisymm) hreports.pairwise (by decide)
        (hreports.perm.trans (by rw [hnames]))
    rw [hreports.message_eq, hsource, hoffered]
    decide
  · obtain ⟨hmem, hunbound⟩ := hreports.mem_offered
    exact Bool.false_ne_true (hunbound.symm.trans (hall "b" hmem))

end Session

end FuzzyLogic
