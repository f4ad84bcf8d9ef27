import FuzzyLogic.Command.Invocation
import FuzzyLogic.Proofs.Outcome

/-!
# Proofs/Command/Invocation — what every switch keeps, a command line keeps

Arguments act on what they build up through the switches of the grammar alone: whatever an argument
is read as, and however switches are joined, what is performed are switches of the grammar
(`mem_of_read`, `mem_of_demand`).  Hence what every switch of a grammar keeps holds after all
arguments if it held before them (`keeps_parse`).

It follows that the operation set a command line chooses is a registered one (`chooses_of_read`).
-/

namespace FuzzyLogic

namespace Grammar

variable {σ : Type} {g : Grammar σ} {P : σ → Prop} {s t : Switch σ} {attached : Attached}
  {argument : String}

/-! ## Switches of the grammar -/

theorem mem_of_mem_named {name : List Char} (h : (name, s) ∈ g.named) : s ∈ g.switches := by
  obtain ⟨t, ht, hmem⟩ := List.mem_flatMap.mp h
  obtain ⟨_, -, heq⟩ := List.mem_map.mp hmem
  rwa [← (Prod.mk.inj heq).2]

theorem mem_of_find? {name : List Char} (h : g.find? name = some s) : s ∈ g.switches := by
  obtain ⟨e, he, rfl⟩ := Option.map_eq_some_iff.mp h
  exact mem_of_mem_named (List.mem_of_find?_eq_some he)

theorem mem_of_mem_candidates {cs name : List Char} (h : (name, s, attached) ∈ g.candidates cs) :
    s ∈ g.switches := by
  have hfilter : ∀ {p : List Char × Switch σ → Bool} {f : List Char × Switch σ → Attached},
      (name, s, attached) ∈ (g.named.filter p).map (fun e => (e.1, e.2, f e)) → s ∈ g.switches := by
    intro p f hmem
    obtain ⟨e, he, heq⟩ := List.mem_map.mp hmem
    obtain ⟨-, hs⟩ := Prod.mk.inj heq
    rw [← (Prod.mk.inj hs).1]
    exact mem_of_mem_named (List.mem_filter.mp he).1
  unfold candidates at h
  split at h
  · exact hfilter h
  · exact hfilter h

/-- An argument that is read as a switch is read as one of the grammar. -/
theorem mem_of_read (h : g.read argument = .ok (.switch s attached)) : s ∈ g.switches := by
  unfold read at h
  dsimp only at h
  split at h
  case isTrue => cases h
  case isFalse =>
    split at h
    case h_1 t ht =>
      cases h
      exact mem_of_find? ht
    case h_2 =>
      split at h
      case h_1 t _ ht =>
        cases h
        exact mem_of_find? ht
      case h_2 =>
        split at h
        case h_1 hcandidates =>
          cases h
          exact mem_of_mem_candidates (by rw [hcandidates]; exact List.mem_singleton_self _)
        case h_2 => split at h <;> cases h
        case h_3 => cases h

/-- Readings whose switches are of the grammar. -/
def Known (g : Grammar σ) (readings : List (String × Reading σ)) : Prop :=
  ∀ argument s attached, (argument, Reading.switch s attached) ∈ readings → s ∈ g.switches

theorem known_of_readAll {arguments : List String} {readings : List (String × Reading σ)}
    (h : g.readAll arguments = .ok readings) : g.Known readings := by
  induction arguments generalizing readings with
  | nil =>
    obtain rfl : [] = readings := Except.ok.inj h
    exact fun _ _ _ hmem => absurd hmem List.not_mem_nil
  | cons first rest ih =>
    unfold readAll at h
    split at h
    case isTrue =>
      obtain rfl := Except.ok.inj h
      intro argument s attached hmem
      rcases List.mem_cons.mp hmem with heq | hmem
      · cases heq
      · obtain ⟨_, -, heq⟩ := List.mem_map.mp hmem
        cases heq
    case isFalse =>
      obtain ⟨reading, hreading, h⟩ := Outcome.bind_eq_ok.mp h
      obtain ⟨others, hothers, h⟩ := Outcome.bind_eq_ok.mp h
      obtain rfl := Except.ok.inj h
      intro argument s attached hmem
      rcases List.mem_cons.mp hmem with heq | hmem
      · cases heq
        exact mem_of_read hreading
      · exact ih hothers argument s attached hmem

/-- A demand for switches of the grammar. -/
structure Asks (g : Grammar σ) (d : Demand σ) : Prop where
  flags : ∀ t ∈ d.flags, t ∈ g.switches
  valued : ∀ e ∈ d.valued?, e.1 ∈ g.switches

theorem asks_flag (hs : s ∈ g.switches) (leftover? : Option String) :
    g.Asks ⟨[s], none, leftover?⟩ :=
  ⟨List.forall_mem_singleton.mpr hs, fun _ h => by cases h⟩

theorem asks_value (hs : s ∈ g.switches) (value? : Option String) :
    g.Asks ⟨[], some (s, value?), none⟩ :=
  ⟨nofun, fun _ h => by cases h; exact hs⟩

/-- What a switch of the grammar asks for are switches of the grammar, however they are joined. -/
theorem asks_of_demand {d : Demand σ} (hs : s ∈ g.switches) (h : g.demand s attached = .ok d) :
    g.Asks d := by
  induction s, attached using demand.induct g generalizing d with
  | case1 s =>
    rw [demand] at h
    obtain rfl := Except.ok.inj h
    split
    case isTrue => exact asks_value hs none
    case isFalse => exact asks_flag hs none
  | case2 s value htakes =>
    rw [demand, if_pos htakes] at h
    obtain rfl := Except.ok.inj h
    exact asks_value hs _
  | case3 s value htakes =>
    rw [demand, if_neg htakes] at h
    cases h
  | case4 s =>
    rw [demand] at h
    obtain rfl := Except.ok.inj h
    exact asks_flag hs none
  | case5 s c more htakes =>
    rw [demand, if_pos htakes] at h
    obtain rfl := Except.ok.inj h
    exact asks_value hs _
  | case6 s more htakes =>
    rw [demand, if_neg htakes, if_pos rfl] at h
    cases h
  | case7 s c more htakes hc hfind =>
    rw [demand, if_neg htakes, if_neg hc, hfind] at h
    obtain rfl := Except.ok.inj h
    exact asks_flag hs _
  | case8 s c more htakes hc t hfind _ ih =>
    rw [demand, if_neg htakes, if_neg hc, hfind] at h
    obtain ⟨rest, hrest, rfl⟩ := Outcome.map_eq_ok.mp h
    obtain ⟨hflags, hvalued⟩ := ih (mem_of_find? hfind) hrest
    exact ⟨List.forall_mem_cons.mpr ⟨hs, hflags⟩, hvalued⟩

/-! ## What switches keep -/

/-- Every switch of the grammar keeps a property of what the arguments build up. -/
def Keeps (g : Grammar σ) (P : σ → Prop) : Prop :=
  ∀ s ∈ g.switches, ∀ value state next, P state → perform s value state = .ok next → P next

variable {p q : Progress σ}

theorem keeps_flags {flags : List (Switch σ)} {state next : σ} (hg : g.Keeps P)
    (hflags : ∀ t ∈ flags, t ∈ g.switches) (hstate : P state)
    (h : flags.foldlM (fun state s => perform s "" state) state = .ok next) : P next := by
  induction flags generalizing state with
  | nil => exact Except.ok.inj h ▸ hstate
  | cons t flags ih =>
    obtain ⟨ht, hrest⟩ := List.forall_mem_cons.mp hflags
    rw [List.foldlM_cons] at h
    obtain ⟨middle, hmiddle, h⟩ := Outcome.bind_eq_ok.mp h
    exact ih hrest (hg t ht _ _ _ hstate hmiddle) h

/-- The switch with a value that is asked for, and its value. -/
def valued (d : Demand σ) (next? : Option String) : Except Halt (Option (Switch σ × String)) :=
  match d.valued?, next? with
  | none, _ => .ok none
  | some (s, some value), _ => .ok (some (s, value))
  | some (s, none), some value => .ok (some (s, value))
  | some (s, none), none => .error (.refused (.missingValue s.label))

theorem satisfy_eq (p : Progress σ) (d : Demand σ) (next? : Option String) :
    satisfy p d next? = (do
      let value? ← valued d next?
      let state ← d.flags.foldlM (fun state s => perform s "" state) p.state
      let state ← value?.elim (.ok state) fun e => perform e.1 e.2 state
      return { p with state, extras := p.extras ++ d.leftover?.toList }) := by
  rcases hd : d.valued? with _ | ⟨s, _ | value⟩ <;> cases next? <;>
    simp only [satisfy, valued, hd] <;> rfl

/-- What is asked for with a value is a switch of the grammar. -/
theorem mem_of_valued {d : Demand σ} {next? : Option String} {value? : Option (Switch σ × String)}
    (hd : g.Asks d) (h : valued d next? = .ok value?) : ∀ e ∈ value?, e.1 ∈ g.switches := by
  unfold valued at h
  split at h
  case h_1 =>
    obtain rfl := Except.ok.inj h
    exact fun _ he => by cases he
  case h_2 heq | h_3 heq =>
    obtain rfl := Except.ok.inj h
    intro e he
    cases he
    exact hd.valued _ heq
  case h_4 => cases h

theorem keeps_satisfy {d : Demand σ} {next? : Option String} (hg : g.Keeps P) (hd : g.Asks d)
    (hp : P p.state) (h : satisfy p d next? = .ok q) : P q.state := by
  rw [satisfy_eq] at h
  obtain ⟨value?, hvalue, h⟩ := Outcome.bind_eq_ok.mp h
  obtain ⟨state, hflags, h⟩ := Outcome.bind_eq_ok.mp h
  obtain ⟨last, hlast, h⟩ := Outcome.bind_eq_ok.mp h
  obtain rfl := Except.ok.inj h
  have hstate : P state := keeps_flags hg hd.flags hp hflags
  cases value? with
  | none => exact Except.ok.inj hlast ▸ hstate
  | some e => exact hg e.1 (mem_of_valued hd hvalue e rfl) _ _ _ hstate hlast

/-- Taking an argument keeps what every switch keeps: only switches act on the state. -/
theorem keeps_take {reading : Reading σ} {rest : List (String × Reading σ)} {more : Nat}
    (hg : g.Keeps P) (hreading : ∀ s attached, reading = .switch s attached → s ∈ g.switches)
    (hp : P p.state) (h : g.take argument reading rest p = .ok (q, more)) : P q.state := by
  unfold take at h
  cases reading with
  | separator =>
    dsimp only at h
    split at h <;> (cases h; exact hp)
  | operand =>
    dsimp only at h
    split at h
    · split at h <;> (cases h; exact hp)
    · cases h; exact hp
    · cases h; exact hp
  | unknown => cases h; exact hp
  | switch s attached =>
    obtain ⟨d, hd, h⟩ := Outcome.bind_eq_ok.mp h
    have hasks := asks_of_demand (hreading s attached rfl) (Outcome.mapError_eq_ok.mp hd)
    split at h
    · obtain ⟨next, hnext, h⟩ := Outcome.bind_eq_ok.mp h
      obtain ⟨rfl, -⟩ := Prod.mk.inj (Except.ok.inj h)
      exact keeps_satisfy hg hasks hp hnext
    · obtain ⟨next, hnext, h⟩ := Outcome.bind_eq_ok.mp h
      obtain ⟨rfl, -⟩ := Prod.mk.inj (Except.ok.inj h)
      exact keeps_satisfy hg hasks hp hnext

/-- Following arguments keeps what every switch keeps. -/
theorem keeps_scan {readings : List (String × Reading σ)} (hg : g.Keeps P)
    (hknown : g.Known readings) (hp : P p.state) (h : g.scan readings p = .ok q) : P q.state := by
  induction hlength : readings.length using Nat.strongRecOn generalizing readings p with
  | ind length ih =>
    subst hlength
    cases readings with
    | nil =>
      rw [scan] at h
      exact Except.ok.inj h ▸ hp
    | cons first rest =>
      obtain ⟨argument, reading⟩ := first
      rw [scan] at h
      obtain ⟨⟨middle, more⟩, hmiddle, h⟩ := Outcome.bind_eq_ok.mp h
      have hstate : P middle.state := keeps_take hg
        (fun s attached heq => hknown argument s attached (heq ▸ List.mem_cons_self)) hp hmiddle
      refine ih _ ?_ (fun argument s attached hmem => hknown argument s attached ?_) hstate h rfl
      · rw [List.length_drop, List.length_cons]
        omega
      · exact List.mem_cons_of_mem _ (List.mem_of_mem_drop hmem)

/-- **What every switch keeps, all arguments keep.** -/
theorem keeps_parse {arguments : List String} {state : σ} (hg : g.Keeps P) (hstate : P state)
    (h : g.parse arguments state = .ok q) : P q.state := by
  rw [parse] at h
  obtain ⟨readings, hreadings, h⟩ := Outcome.bind_eq_ok.mp h
  obtain ⟨last, hlast, h⟩ := Outcome.bind_eq_ok.mp h
  have hlast := keeps_scan hg (known_of_readAll (Outcome.mapError_eq_ok.mp hreadings)) hstate hlast
  split at h
  case h_1 => cases h
  case h_2 =>
    obtain rfl := Except.ok.inj h
    exact hlast

end Grammar

namespace Invocation

variable {r : Registry} {arguments : List String} {i : Invocation} {expression : String}
  {o : Options}

/-- A registered operation set is chosen, or none. -/
def Chooses (r : Registry) (o : Options) : Prop := ∀ name ∈ o.opset?, name ∈ r.names

/-- Every switch of every command keeps to registered operation sets. -/
theorem keeps_chooses (r : Registry) (name : String) :
    (commandGrammar r name).Keeps (Chooses r) := by
  intro s hs value state next hstate h
  have hcases : s = helpSwitch ∨ s = setSwitch ∨ s = noLabelsSwitch ∨ s = jsonSwitch ∨
      s = opsetSwitch r := by
    unfold commandGrammar at hs
    split at hs <;> simp only [List.mem_cons, List.not_mem_nil, or_false] at hs <;> grind
  rcases hcases with rfl | rfl | rfl | rfl | rfl
  · cases h
  · replace h := Outcome.mapError_eq_ok.mp h
    dsimp only at h
    split at h
    case h_1 =>
      obtain rfl := Except.ok.inj h
      exact hstate
    case h_2 => cases h
  · obtain rfl := Except.ok.inj h
    exact hstate
  · obtain rfl := Except.ok.inj h
    exact hstate
  · replace h := Outcome.mapError_eq_ok.mp h
    dsimp only at h
    split at h
    case isTrue hname =>
      obtain rfl := Except.ok.inj h
      rintro _ ⟨⟩
      exact List.contains_iff_mem.mp hname
    case isFalse => cases h

/-- The command of a name is an evaluation under the options that were read, or none. -/
theorem options_of_commandOf {name : String} {operands : List String} {p : Options}
    (h : commandOf name operands p = .eval expression o) : p = o := by
  unfold commandOf at h
  dsimp only at h
  split at h
  case h_1 =>
    cases h
    rfl
  all_goals cases h

/-- What a command reads keeps to registered operation sets. -/
theorem chooses_of_readCommand {name : String} {more : List String}
    (h : readCommand r name arguments = .ok (.eval expression o, more)) : Chooses r o := by
  obtain ⟨p, hp, h⟩ := Outcome.bind_eq_ok.mp h
  obtain ⟨hcommand, -⟩ := Prod.mk.inj (Except.ok.inj h)
  rw [← options_of_commandOf hcommand]
  exact Grammar.keeps_parse (keeps_chooses r name) (fun _ h => by cases h)
    (Outcome.mapError_eq_ok.mp hp)

/-- **The operation set that a command line chooses is a registered one.** -/
theorem chooses_of_read (h : read r arguments = .ok i)
    (hcommand : i.command? = some (.eval expression o)) : Chooses r o := by
  obtain ⟨p, -, h⟩ := Outcome.bind_eq_ok.mp h
  cases hoperands : p.operands with
  | nil =>
    -- without an operand there is no command
    rw [hoperands] at h
    obtain ⟨_, hpair, h⟩ := Outcome.bind_eq_ok.mp h
    cases hpair
    dsimp only at h
    split at h
    · rw [← Except.ok.inj h] at hcommand
      cases hcommand
    · cases h
  | cons name rest =>
    rw [hoperands] at h
    dsimp only at h
    split at h
    case isTrue =>
      obtain ⟨⟨command, more⟩, hread, h⟩ := Outcome.bind_eq_ok.mp h
      obtain ⟨_, hpair, h⟩ := Outcome.bind_eq_ok.mp h
      cases hpair
      dsimp only at h
      split at h
      · rw [← Except.ok.inj h] at hcommand
        obtain rfl := Option.some.inj hcommand
        exact chooses_of_readCommand hread
      · cases h
    case isFalse => cases h

end Invocation

end FuzzyLogic
