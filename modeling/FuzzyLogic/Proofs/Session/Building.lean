import FuzzyLogic.Proofs.Entries
import FuzzyLogic.Proofs.Formula.Binding
import FuzzyLogic.Proofs.Formula.Compilation
import FuzzyLogic.Proofs.Session.Following
import FuzzyLogic.Session.Library
import Mathlib.Data.List.Forall2

/-!
# Proofs/Session/Building — building from a namespace and keywords

A session builds a formula from objects: a namespace, overlaid by keyword operands.  The run follows
building over the trees that these objects stand for (`follows_build`), because binding and joining
follow part by part; so what is said of `Compiled.build` holds of every session
(`build_outcome`).

Building in one step from a text compiles it and builds, over the namespace and the keywords if there
are any (`run_fuzzyMath_given`), else over what the calling frame sees: a name is a local variable
of it, else a global one (`run_fuzzyMath_frame`).
-/

namespace FuzzyLogic

/-- The values that stand for an operand: nodes, fuzzy values that say their degree, and what is
neither node nor fuzzy value. -/
inductive Value.Offers : Operand → Value → Prop
  | node {x : Node} {v : Value} : v.IsTree x → Offers (.node x) v
  | value {m : Membership} {v : Value} : v.Says m → Offers (.value m) v
  | stranger {v : Value} : Session.isNode v = false → Session.isFuzzy v = false →
    Offers (.stranger v.typeName) v

/-- The operands over a family of operation sets: built trees and degrees of it, and strangers. -/
def Operand.Within (F : OpsetFamily) : Operand → Prop
  | .node x => Node.Built F x
  | .value m => F.mem m.opset
  | .failing _ => False
  | .stranger _ => True

namespace Compiled

variable {F : OpsetFamily} {c : Compiled} {scope : String → Option Operand} {n : String} {x : Node}

/-- A name that stands for a tree stands for one that is built. -/
theorem built_of_resolve (h : ∀ operand, scope n = some operand → operand.Within F)
    (hx : c.resolve scope n = .ok x) : Node.Built F x := by
  rw [resolve] at hx
  cases hscope : scope n with
  | none => rw [hscope] at hx; cases hx
  | some operand =>
    rw [hscope] at hx
    have hwithin := h operand hscope
    cases operand with
    | node y => exact Except.ok.inj hx ▸ hwithin
    | value m => exact Except.ok.inj hx ▸ .atom hwithin
    | failing f => exact hwithin.elim
    | stranger t => cases hx

end Compiled

namespace Session

open Compiled

variable {F : OpsetFamily} {source : String} {c : Compiled} {f : Formula}
  {scope : String → Option Operand} {namespaced keywords overlay : List (String × Value)}
  {bound : List (String × Node)} {bound' : List (String × Value)} {given : Option Opset}
  {v : Value} {operand' : Operand} {o : Opset}

/-! ## Parts of a build -/

theorem follows_operand (name : String) (h : v.Offers operand') :
    Follows Value.IsTree (operand name v) (operand'.toNode name) := by
  cases h with
  | node h =>
    obtain ⟨serial, parts, rfl⟩ := h.eq_node
    exact follows_pure h
  | value h =>
    have hrun : operand name v = toExpr v := by cases h <;> rfl
    rw [hrun]
    exact follows_toExpr h
  | stranger hnode hfuzzy =>
    rw [operand, hnode, hfuzzy]
    exact follows_throw _

theorem follows_literalLeaf (o : Opset) (value : Binary64) :
    Follows Value.IsTree (literalLeaf (.opset o) value) (literalNode o value) := by
  have h := (follows_construct (.float value) o).bind fun _ _ => follows_makeAtom
  rw [literalNode, Node.ofDegree]
  cases hof : Membership.of (.float value) o <;> rw [hof] at h <;> exact h

/-- Entries under the same names, their objects standing for the trees. -/
def EntriesFollow : List (String × Node) → List (String × Value) → Prop :=
  List.Forall₂ fun a b => a.1 = b.1 ∧ b.2.IsTree a.2

theorem EntriesFollow.lookup (h : EntriesFollow bound bound') (name : String) :
    Option.Rel Value.IsTree (bound.lookup name) (bound'.lookup name) := by
  induction h with
  | nil => exact .none
  | cons hab _ ih =>
    rename_i a b l l' _
    obtain ⟨key, x⟩ := a
    obtain ⟨key', v⟩ := b
    obtain ⟨rfl, hx⟩ : key = key' ∧ v.IsTree x := hab
    rw [List.lookup_cons, List.lookup_cons]
    cases name == key with
    | true => exact .some hx
    | false => exact ih

theorem follows_bindNames {names : List String}
    (h : ∀ n ∈ names, Option.Rel Value.Offers (scope n) (overlay.lookup n)) :
    Follows EntriesFollow (bindNames (values overlay) c names)
      (bindNames (nodes scope) c names) := by
  induction names with
  | nil => exact follows_pure .nil
  | cons n names ih =>
    obtain ⟨hn, hrest⟩ := List.forall_mem_cons.mp h
    rw [bindNames, bindNames]
    simp only [values, nodes]
    cases hscope : scope n with
    | none =>
      rw [hscope] at hn
      cases hlookup : overlay.lookup n with
      | some v => rw [hlookup] at hn; cases hn
      | none => exact follows_throw _
    | some operand' =>
      rw [hscope] at hn
      cases hlookup : overlay.lookup n with
      | none => rw [hlookup] at hn; cases hn
      | some v =>
        rw [hlookup] at hn
        cases hn with
        | some hoffers =>
          exact (follows_operand n hoffers).bind fun _ _ hx =>
            (ih hrest).bind fun _ _ hentries => follows_pure (.cons ⟨rfl, hx⟩ hentries)

/-- Joining follows part by part. -/
theorem follows_assemble (f : Formula) (scope : String → Option Operand)
    (overlay : List (String × Value)) {literal : Binary64 → Except Fault Node}
    {literal' : Binary64 → Run Value}
    (hbound : EntriesFollow bound bound')
    (hliteral : ∀ value, Follows Value.IsTree (literal' value) (literal value)) :
    Follows Value.IsTree (f.assemble (meaning (values overlay) bound' literal'))
      (f.assemble (meaning (nodes scope) bound literal)) := by
  induction f with
  | name text position =>
    have hlookup := hbound.lookup text
    simp only [Formula.assemble, meaning]
    cases hx : bound.lookup text with
    | none =>
      rw [hx] at hlookup
      cases hv : bound'.lookup text with
      | none => exact follows_throw _
      | some v => rw [hv] at hlookup; cases hlookup
    | some x =>
      rw [hx] at hlookup
      cases hv : bound'.lookup text with
      | none => rw [hv] at hlookup; cases hlookup
      | some v =>
        rw [hv] at hlookup
        cases hlookup with
        | some h => exact follows_pure h
  | literal value position => exact hliteral value
  | negation f ih => exact ih.bind fun _ _ => follows_makeNot
  | conjunction f g ihf ihg =>
    exact ihf.bind fun _ _ hx => ihg.bind fun _ _ hy => follows_makeAnd hx hy
  | disjunction f g ihf ihg =>
    exact ihf.bind fun _ _ hx => ihg.bind fun _ _ hy => follows_makeOr hx hy

/-- **A session builds as the library does**, over the operands that its objects stand for. -/
theorem follows_build (serial : Nat)
    (h : ∀ n ∈ c.names, Option.Rel Value.Offers (scope n) ((keywords ++ namespaced).lookup n)) :
    Follows Value.IsTree
      (build (.compiled serial c) namespaced (given.map .opset) keywords)
      (c.build scope given) := by
  refine (follows_bindNames h).bind fun bound bound' hbound => ?_
  have hassemble := fun o => follows_assemble c.formula scope (keywords ++ namespaced) hbound
    (follows_literalLeaf o)
  cases given with
  | some o => exact hassemble o
  | none =>
    cases hbound with
    | nil =>
      cases hliterals : c.formula.literals with
      | nil => exact follows_assemble _ _ _ .nil fun _ => follows_throw _
      | cons first rest => exact follows_throw _
    | cons hab hrest =>
      rename_i a b _ _
      obtain ⟨key, x⟩ := a
      obtain ⟨key', w⟩ := b
      obtain ⟨i, parts, rfl⟩ := hab.2.eq_node
      exact hassemble x.opset

/-! ## Other names, and calling frames -/

/-- **Only what the names of the formula are bound to matters.** -/
theorem build_congr (serial : Nat) (opset : Option Value)
    {namespaced' keywords' : List (String × Value)}
    (h : ∀ n ∈ c.names,
      (keywords' ++ namespaced').lookup n = (keywords ++ namespaced).lookup n) :
    build (.compiled serial c) namespaced' opset keywords' =
      build (.compiled serial c) namespaced opset keywords :=
  buildWith_congr _ _ (fun n hn => congrArg (Option.map (operand n)) (h n hn)) fun _ _ => rfl

/-- Compiling a text hands out its formula. -/
theorem run_compile {s : Session} (hcache : CompileCache.Reachable s.cache)
    (hc : Compiled.ofSource source = .ok c) :
    ∃ serial s', (compile (.text source)).run.run s = (.ok (.compiled serial c), s') := by
  have hrequest := (hcache.faithful.request_text source).1
  rw [hc] at hrequest
  obtain ⟨handle, hhandle, rfl⟩ := Outcome.map_eq_ok.mp hrequest
  refine ⟨2 * handle.serial, { s with cache := (s.cache.request (.text source)).2 }, ?_⟩
  have hrun : (compile (.text source)).run.run s =
      (pureRun (s.cache.request (.text source)).1 >>= fun h =>
        pure (.compiled (2 * h.serial) h.compiled) : Run Value).run.run
        { s with cache := (s.cache.request (.text source)).2 } := rfl
  rw [hrun, hhandle]
  rfl

/-- **What a frame sees**: its local variables, else the global ones. -/
theorem Frame.lookup_scope (frame : Frame) (n : String) :
    frame.scope.lookup n = (frame.locals.lookup n).or (frame.globals.lookup n) := by
  rw [Frame.scope, Entries.lookup_overlay, Entries.lookup_overlay, List.lookup_nil, Option.or_none]

/-- Building in one step compiles, and then builds. -/
theorem run_fuzzyMath {s s' : Session} {compiled : Value}
    (hcompile : (compile (.text source)).run.run s = (.ok compiled, s')) (caller? : Option Frame)
    (namespaced? : Option (List (String × Value))) (opset : Option Value) :
    (fuzzyMath caller? (.text source) namespaced? opset keywords).run.run s =
      (if namespaced?.isNone && keywords.isEmpty then
        build compiled (match caller? with | some frame => frame.scope | none => []) opset []
      else build compiled (namespaced?.getD []) opset keywords).run.run s' :=
  run_bind_of_ok hcompile

/-- **With neither namespace nor keywords the frame that calls is built over**: any scope in which
the names of the formula are its local variables, else its global ones. -/
theorem run_fuzzyMath_frame {s s' : Session} {serial : Nat}
    (hcompile : (compile (.text source)).run.run s = (.ok (.compiled serial c), s')) (frame : Frame)
    (opset : Option Value) (hseen : ∀ n ∈ c.names,
      namespaced.lookup n = (frame.locals.lookup n).or (frame.globals.lookup n)) :
    (fuzzyMath (some frame) (.text source) none opset []).run.run s =
      (build (.compiled serial c) namespaced opset []).run.run s' := by
  rw [run_fuzzyMath hcompile]
  refine congrArg (fun r : Run Value => r.run.run s') (build_congr serial opset fun n hn => ?_)
  exact (frame.lookup_scope n).trans (hseen n hn).symm

/-- With either of them the frame plays no part. -/
theorem run_fuzzyMath_given {s s' : Session} {compiled : Value}
    (hcompile : (compile (.text source)).run.run s = (.ok compiled, s')) (caller? : Option Frame)
    {namespaced? : Option (List (String × Value))} (opset : Option Value)
    (hgiven : namespaced?.isSome = true ∨ keywords ≠ []) :
    (fuzzyMath caller? (.text source) namespaced? opset keywords).run.run s =
      (build compiled (namespaced?.getD []) opset keywords).run.run s' := by
  rw [run_fuzzyMath hcompile, if_neg]
  cases namespaced? <;> cases keywords <;> simp_all

/-! ## The outcome -/

/-- **What building comes to.**  Of every formula that compiles, over a namespace overlaid by
keyword operands that offer nodes, fuzzy values or what is neither, and for every operation set
given or not:

* the first name, in order of first appearance, that is absent, or bound to neither node nor fuzzy
  value, is reported, as unbound or as no operand;
* without names and without operation set the leftmost literal is reported;
* otherwise every literal has the operation set that is given, else that of the first name's
  operand, and the tree is built exactly if all leaves have one operation set; if they have not, it
  is a mismatch;
* scopes that agree on the names of the formula build alike;
* compiling and building in one step, with neither namespace nor keywords, builds over any scope in
  which the names of the formula are the local variables of the calling frame, else its global
  ones; with either of them it builds over these. -/
theorem build_outcome (given : Option Opset) (hc : Compiled.ofSource source = .ok c)
    (hscope : ∀ n ∈ c.names,
      Option.Rel Value.Offers (scope n) ((keywords ++ namespaced).lookup n))
    (hfamily : ∀ n ∈ c.names, ∀ operand, scope n = some operand → operand.Within F)
    (hgiven : ∀ o ∈ given, F.mem o) (serial : Nat) :
    let built := build (.compiled serial c) namespaced (given.map .opset) keywords
    (∀ before name after, c.names = before ++ name :: after →
      (∀ n ∈ before, ∃ x, c.resolve scope n = .ok x) →
      (scope name = none →
        Follows Value.IsTree built (.error (.unboundName name c.source c.names))) ∧
      ∀ typeName, scope name = some (.stranger typeName) →
        Follows Value.IsTree built (.error (.badOperand name typeName))) ∧
    (c.names = [] → given = none → ∃ first rest, c.formula.literals = first :: rest ∧
      Follows Value.IsTree built (.error (.literalWithoutOpset first.plainText))) ∧
    (∀ tree o, (∀ n ∈ c.names, c.resolve scope n = .ok (tree n)) →
      (given = some o ∨ given = none ∧ c.names.head?.map (fun n => (tree n).opset) = some o) →
      ((∃ p, ∀ q ∈ c.formula.leafOpsets o tree, q = p) →
        Follows Value.IsTree built (.ok (c.formula.instantiate o tree))) ∧
      ((¬ ∃ p, ∀ q ∈ c.formula.leafOpsets o tree, q = p) → ∃ operation left right,
        Follows Value.IsTree built (.error (.opsetMismatch operation left right)))) ∧
    (∀ namespaced' keywords', (∀ n ∈ c.names,
        (keywords' ++ namespaced').lookup n = (keywords ++ namespaced).lookup n) →
      build (.compiled serial c) namespaced' (given.map .opset) keywords' = built) ∧
    ∀ s : Session, CompileCache.Reachable s.cache → ∃ serial' s',
      (compile (.text source)).run.run s = (.ok (.compiled serial' c), s') ∧
      (∀ (frame : Frame) seen, (∀ n ∈ c.names,
          seen.lookup n = (frame.locals.lookup n).or (frame.globals.lookup n)) →
        (fuzzyMath (some frame) (.text source) none (given.map .opset) []).run.run s =
          (build (.compiled serial' c) seen (given.map .opset) []).run.run s') ∧
      ∀ caller? namespaced? keywords', namespaced?.isSome = true ∨ keywords' ≠ [] →
        (fuzzyMath caller? (.text source) namespaced? (given.map .opset) keywords').run.run s =
          (build (.compiled serial' c) (namespaced?.getD []) (given.map .opset)
            keywords').run.run s' := by
  intro built
  have hbuilt : Follows Value.IsTree built (c.build scope given) := follows_build serial hscope
  refine ⟨?_, ?_, ?_, fun _ _ h => build_congr serial _ h, fun s hcache => ?_⟩
  · intro before name after hnames hbefore
    constructor
    · intro hname
      rwa [build_of_misbound (f := .unboundName name c.source c.names) hnames hbefore
        (by rw [resolve, hname])] at hbuilt
    · intro typeName hname
      rwa [build_of_misbound (f := .badOperand name typeName) hnames hbefore
        (by rw [resolve, hname]; rfl)] at hbuilt
  · rintro hnames rfl
    obtain ⟨first, rest, hliterals, hbuild⟩ := build_without_opset scope hnames
    exact ⟨first, rest, hliterals, hbuild ▸ hbuilt⟩
  · intro tree o hresolve ho
    have hlegible := legible_of_ofSource hc
    have htree : ∀ n ∈ c.names, Node.Built F (tree n) := fun n hn =>
      built_of_resolve (hfamily n hn) (hresolve n hn)
    constructor
    · intro hone
      rwa [build_of_one_opset htree hgiven ho hlegible hresolve hone] at hbuilt
    · intro hmany
      obtain ⟨operation, left, right, hbuild⟩ :=
        build_of_many_opsets htree hgiven ho hlegible hresolve hmany
      exact ⟨operation, left, right, hbuild ▸ hbuilt⟩
  · obtain ⟨serial', s', hcompile⟩ := run_compile hcache hc
    exact ⟨serial', s', hcompile, fun frame _ => run_fuzzyMath_frame hcompile frame _,
      fun caller? _ _ => run_fuzzyMath_given hcompile caller? _⟩

/-- The single name of a formula is offered what is found under it. -/
theorem offers_of_names_eq {name : String} {found : List (String × Value)} {operand : Operand}
    {v : Value} (hnames : c.names = [name]) (hfound : found.lookup name = some v)
    (h : Value.Offers operand v) :
    ∀ n ∈ c.names, Option.Rel Value.Offers (some operand) (found.lookup n) := by
  intro n hn
  obtain rfl := List.mem_singleton.mp (hnames ▸ hn)
  exact hfound ▸ .some h

/-- The text `!a | 0.5` over a keyword operand that wins over what the namespace holds: alone it
gives its operation set to the literal, beside another one it is a mismatch. -/
theorem notA_or_half_outcome :
    ∃ c, Compiled.ofSource "!a | 0.5" = .ok c ∧
      Follows Value.IsTree
        (build (.compiled 0 c) [("a", .thing "object")] none
          [("a", .membership 0 ⟨.float .one, Node.choosing⟩)])
        (.ok (.or (.not (.atom ⟨.float .one, Node.choosing⟩))
          (.atom ⟨.float (Formula.literalValue "0.5"), Node.choosing⟩))) ∧
      (∃ operation left right, Follows Value.IsTree
        (build (.compiled 0 c) [("a", .thing "object")] (some (.opset Catalogue.yager1))
          [("a", .membership 0 ⟨.float .one, Node.choosing⟩)])
        (.error (.opsetMismatch operation left right))) ∧
      Follows Value.IsTree (build (.compiled 0 c) [("a", .thing "object")] none [])
        (.error (.badOperand "a" "object")) ∧
      ∃ serial s', (fuzzyMath (some ⟨[("a", .none)], [("a", .thing "object")]⟩)
          (.text "!a | 0.5") none none []).run.run start =
        (build (.compiled serial c) [("a", .thing "object")] none []).run.run s' := by
  obtain ⟨c, hc, hformula, hnames⟩ : ∃ c, ofSource "!a | 0.5" = .ok c ∧
      c.formula = notAOrHalf.formula ∧ c.names = ["a"] :=
    ⟨_, ofSource_notAOrHalf, rfl, names_notAOrHalf⟩
  let m : Membership := ⟨.float .one, Node.choosing⟩
  have hchoosing : Node.choosingFamily.mem Node.choosing := List.mem_cons_self
  have hyager1 : Node.choosingFamily.mem Catalogue.yager1 :=
    List.mem_cons_of_mem _ List.mem_cons_self
  have hkeyword : ∀ n ∈ c.names, Option.Rel Value.Offers (some (.value m))
      (([("a", Value.membership 0 m)] ++ [("a", Value.thing "object")]).lookup n) :=
    offers_of_names_eq hnames rfl (.value (.membership 0 m))
  have hnamespace : ∀ n ∈ c.names, Option.Rel Value.Offers (some (.stranger "object"))
      (([] ++ [("a", Value.thing "object")]).lookup n) :=
    offers_of_names_eq hnames rfl (.stranger (v := .thing "object") rfl rfl)
  have hwithin : ∀ n ∈ c.names, ∀ operand, some (Operand.value m) = some operand →
      operand.Within Node.choosingFamily := by
    rintro n - operand h
    exact Option.some.inj h ▸ hchoosing
  obtain ⟨-, -, halone, -, hframe⟩ :=
    build_outcome none hc hkeyword hwithin (fun _ h => by cases h) 0
  obtain ⟨-, -, hbeside, -, -⟩ := build_outcome (some Catalogue.yager1) hc hkeyword hwithin
    (fun o h => Option.some.inj h ▸ hyager1) 0
  obtain ⟨hmisbound, -⟩ := build_outcome (F := Node.choosingFamily) none hc hnamespace
    (by rintro n - operand h; exact Option.some.inj h ▸ trivial) (fun _ h => by cases h) 0
  have halone := halone (fun _ => .atom m) Node.choosing (fun _ _ => rfl)
    (.inr ⟨rfl, by rw [hnames]; rfl⟩)
  have hbeside := hbeside (fun _ => .atom m) Catalogue.yager1 (fun _ _ => rfl) (.inl rfl)
  rw [hformula] at halone hbeside
  obtain ⟨serial, s', -, hframe, -⟩ := hframe start .empty
  refine ⟨_, hc, halone.1 ⟨Node.choosing, fun q hq => ?_⟩, hbeside.2 ?_,
    (hmisbound [] "a" [] hnames nofun).2 "object" rfl, serial, s', hframe _ _ fun n hn => ?_⟩
  · exact (List.mem_cons.mp hq).elim id List.mem_singleton.mp
  · rintro ⟨p, hp⟩
    have hname : Node.choosing = p := hp _ List.mem_cons_self
    have hliteral : Catalogue.yager1 = p := hp _ (List.mem_cons_of_mem _ List.mem_cons_self)
    exact absurd (congrArg Opset.id (hliteral.trans hname.symm)) (by decide)
  · obtain rfl := List.mem_singleton.mp (hnames ▸ hn)
    rfl

end Session

end FuzzyLogic
