import FuzzyLogic.Log.Journal
import Mathlib.Data.List.Induction

/-!
# Proofs/Log/OneSetup — one setup at a time

Three entry points lead to the journal: setting it up anew, asking for it, and making its object.  The
state behind them is in three places — the object, whether it has been set up, and the object that is
handed out — beside the handlers that are open.

`InForce j c object` says that all of them agree: the journal is as the call `c` has set it up, and
`object` is its object.  Setting up anew brings this about from any state, every other call keeps it
(`inForce_setUp`, `InForce.after`), and the first call of all brings it about, whichever it is
(`inForce_first`).

Handlers carry the number of the setup that opened them.  What a call does to them is one of two
things (`after_cases`): nothing, or to close all that are open and open those of a request.
-/

namespace FuzzyLogic.Log

/-- The ways to the journal. -/
inductive Entry
  | setUp
  | get
  | construct
  deriving DecidableEq

/-- A call of an entry point at some time. -/
structure Call where
  entry : Entry
  clock : Clock
  request : Request

namespace Call

/-- The journal after a call. -/
def after (c : Call) (j : Journal) : Journal :=
  match c.entry with
  | .setUp => j.setUp c.clock c.request
  | .get => j.ensure c.clock c.request
  | .construct => j.construct c.clock c.request

/-- The object that a call returns: the one handed out, or the one for the journal. -/
def returned? (c : Call) (j : Journal) : Option Nat :=
  match c.entry with
  | .construct => (c.after j).instance?
  | _ => (c.after j).current?

end Call

namespace Journal

/-- The journal after calls, from the first to the last. -/
def afterAll (j : Journal) (calls : List Call) : Journal := calls.foldl (fun j c => c.after j) j

variable {j : Journal} {c d : Call} {calls : List Call} {object : Nat}

theorem afterAll_append (j : Journal) (before after : List Call) :
    j.afterAll (before ++ after) = (j.afterAll before).afterAll after := List.foldl_append

theorem afterAll_concat (j : Journal) (calls : List Call) (c : Call) :
    j.afterAll (calls ++ [c]) = c.after (j.afterAll calls) := by
  rw [afterAll_append]
  rfl

/-! ## The setup in force -/

/-- The journal is as a call has set it up, with an object. -/
structure InForce (j : Journal) (c : Call) (object : Nat) : Prop where
  instance? : j.instance? = some object
  initialized : j.initialized = true
  current? : j.current? = none ∨ j.current? = some object
  setup? : j.setup? = some ⟨object, c.request⟩
  threshold : j.threshold = c.request.threshold
  sinks : j.handlers.map (·.sink) = Journal.sinks c.clock c.request

/-- Without an object, making one sets it up. -/
theorem construct_of_none (clock : Clock) (r : Request) (hnone : j.instance? = none)
    (hinit : j.initialized = false) : j.construct clock r =
      { j.reopen clock r with
        instance? := some j.objects
        objects := j.objects + 1
        initialized := true
        setup? := some ⟨j.objects, r⟩ } := by
  simp [construct, allocate, hnone, hinit, reopen]

/-- With an object that has been set up, making one changes nothing. -/
theorem InForce.construct_eq (h : j.InForce c object) (clock : Clock) (r : Request) :
    j.construct clock r = j := by
  simp [construct, allocate, h.instance?, h.initialized]

theorem map_sink (number : Nat) (sinks : List Sink) :
    (sinks.map (Handler.mk number)).map (·.sink) = sinks := by
  simp [Function.comp_def]

/-- **Setting up anew puts the call in force**, whatever was before, and returns the new object. -/
theorem inForce_setUp (j : Journal) (hc : c.entry = .setUp) :
    (c.after j).InForce c j.objects ∧ c.returned? j = some j.objects := by
  simp only [Call.returned?, Call.after, hc, setUp]
  rw [construct_of_none _ _ rfl rfl]
  exact ⟨⟨rfl, rfl, .inr rfl, rfl, rfl, map_sink _ _⟩, rfl⟩

/-- **The first call is in force**, whichever it is. -/
theorem inForce_first (c : Call) :
    (c.after fresh).InForce c 0 ∧ c.returned? fresh = some 0 := by
  rcases hc : c.entry with _ | _ | _
  · exact inForce_setUp fresh hc
  · simp only [Call.returned?, Call.after, hc]
    rw [ensure, if_neg (by decide), construct_of_none _ _ rfl rfl]
    exact ⟨⟨rfl, rfl, .inr rfl, rfl, rfl, map_sink _ _⟩, rfl⟩
  · simp only [Call.returned?, Call.after, hc]
    rw [construct_of_none _ _ rfl rfl]
    exact ⟨⟨rfl, rfl, .inl rfl, rfl, rfl, map_sink _ _⟩, rfl⟩

/-- What is in force stays so when the object is handed out. -/
theorem InForce.handOut (h : j.InForce c object) : j.handOut.InForce c object :=
  ⟨h.instance?, h.initialized, .inr h.instance?, h.setup?, h.threshold, h.sinks⟩

/-- Once the journal is set up, any other call hands out its object at most. -/
theorem InForce.after_eq (h : j.InForce c object) (hd : d.entry ≠ .setUp) :
    (d.after j = j ∨ d.after j = j.handOut) ∧ d.returned? j = some object := by
  rcases he : d.entry with _ | _ | _
  · exact absurd he hd
  · rcases h.current? with hcurrent | hcurrent
    · have heq : d.after j = j.handOut := by
        simp [Call.after, he, ensure, hcurrent, h.construct_eq]
      exact ⟨.inr heq, by simp [Call.returned?, he, heq, Journal.handOut, h.instance?]⟩
    · have heq : d.after j = j := by simp [Call.after, he, ensure, hcurrent]
      exact ⟨.inl heq, by simp [Call.returned?, he, heq, hcurrent]⟩
  · have heq : d.after j = j := by simp [Call.after, he, h.construct_eq]
    exact ⟨.inl heq, by simp [Call.returned?, he, heq, h.instance?]⟩

/-- **Every call but setting up anew leaves the setup in force**, and its handlers as they are. -/
theorem InForce.after (h : j.InForce c object) (hd : d.entry ≠ .setUp) :
    (d.after j).InForce c object ∧ (d.after j).handlers = j.handlers ∧
      (d.after j).closed = j.closed := by
  rcases (h.after_eq hd).1 with heq | heq
  · rw [heq]
    exact ⟨h, rfl, rfl⟩
  · rw [heq]
    exact ⟨h.handOut, rfl, rfl⟩

/-- **After any calls one of them is in force**: the last that sets up anew, or the first of all if
there is none. -/
theorem exists_inForce (h : calls ≠ []) : ∃ before c after object,
    calls = before ++ c :: after ∧ (c.entry = .setUp ∨ before = []) ∧
      (∀ d ∈ after, d.entry ≠ .setUp) ∧ (fresh.afterAll calls).InForce c object ∧
      c.returned? (fresh.afterAll before) = some object := by
  induction calls using List.reverseRecOn with
  | nil => exact absurd rfl h
  | append_singleton calls d ih =>
    rw [afterAll_concat]
    by_cases hd : d.entry = .setUp
    · obtain ⟨hforce, hreturned⟩ := inForce_setUp (fresh.afterAll calls) hd
      exact ⟨calls, d, [], _, rfl, .inl hd, List.forall_mem_nil _, hforce, hreturned⟩
    · rcases eq_or_ne calls [] with rfl | hne
      · obtain ⟨hforce, hreturned⟩ := inForce_first d
        exact ⟨[], d, [], 0, rfl, .inr rfl, List.forall_mem_nil _, hforce, hreturned⟩
      · obtain ⟨before, c, after, object, rfl, hlast, hkept, hforce, hreturned⟩ := ih hne
        refine ⟨before, c, after ++ [d], object, by simp, hlast, fun e he => ?_,
          (hforce.after hd).1, hreturned⟩
        rcases List.mem_append.mp he with he | he
        · exact hkept e he
        · exact List.mem_singleton.mp he ▸ hd

/-! ## Handlers -/

/-- Nothing happens to the handlers. -/
structure SameHandlers (j j' : Journal) : Prop where
  handlers : j'.handlers = j.handlers
  closed : j'.closed = j.closed
  count : j'.count = j.count

/-- The handlers are closed, and those of a request opened. -/
structure Reopened (clock : Clock) (r : Request) (j j' : Journal) : Prop where
  handlers : j'.handlers = (Journal.sinks clock r).map (⟨j.count, ·⟩)
  closed : j'.closed = j.closed ++ j.handlers
  count : j'.count = j.count + 1

theorem construct_cases (clock : Clock) (r : Request) (j : Journal) :
    SameHandlers j (j.construct clock r) ∨ Reopened clock r j (j.construct clock r) := by
  unfold construct allocate
  cases j.instance? <;> dsimp only <;> split_ifs
  · exact .inl ⟨rfl, rfl, rfl⟩
  · exact .inr ⟨rfl, rfl, rfl⟩
  · exact .inl ⟨rfl, rfl, rfl⟩
  · exact .inr ⟨rfl, rfl, rfl⟩

/-- **What a call does to the handlers**: nothing, or it closes all that are open and opens those of
its request.  Setting up anew always does the latter. -/
theorem after_cases (c : Call) (j : Journal) :
    (c.entry ≠ .setUp ∧ SameHandlers j (c.after j)) ∨
      Reopened c.clock c.request j (c.after j) := by
  rcases hc : c.entry with _ | _ | _
  · refine .inr ?_
    simp only [Call.after, hc, setUp]
    rw [construct_of_none _ _ rfl rfl]
    exact ⟨rfl, rfl, rfl⟩
  · simp only [Call.after, hc, ensure]
    split_ifs
    · exact .inl ⟨by decide, rfl, rfl, rfl⟩
    · rcases construct_cases c.clock c.request j with h | h
      · exact .inl ⟨by decide, h.handlers, h.closed, h.count⟩
      · exact .inr ⟨h.handlers, h.closed, h.count⟩
  · simp only [Call.after, hc]
    exact (construct_cases c.clock c.request j).imp (fun h => ⟨by decide, h⟩) id

/-- The handlers that are open are those of the last setup, those that are closed of earlier ones. -/
structure Numbered (j : Journal) : Prop where
  handlers : ∀ h ∈ j.handlers, h.setup + 1 = j.count
  closed : ∀ h ∈ j.closed, h.setup + 1 < j.count

theorem Numbered.after (hj : j.Numbered) (c : Call) : (c.after j).Numbered := by
  rcases after_cases c j with ⟨-, hsame⟩ | hreopened
  · constructor
    · rw [hsame.handlers, hsame.count]
      exact hj.handlers
    · rw [hsame.closed, hsame.count]
      exact hj.closed
  · constructor
    · intro h hh
      rw [hreopened.handlers] at hh
      obtain ⟨sink, -, rfl⟩ := List.mem_map.mp hh
      exact hreopened.count.symm
    · intro h hh
      rw [hreopened.closed] at hh
      rw [hreopened.count]
      rcases List.mem_append.mp hh with hh | hh
      · exact Nat.lt_succ_of_lt (hj.closed h hh)
      · exact hj.handlers h hh ▸ Nat.lt_succ_self _

theorem numbered_afterAll (calls : List Call) : (fresh.afterAll calls).Numbered := by
  induction calls using List.reverseRecOn with
  | nil => exact ⟨List.forall_mem_nil _, List.forall_mem_nil _⟩
  | append_singleton calls c ih =>
    rw [afterAll_concat]
    exact ih.after c

/-- No handler is open and closed. -/
theorem Numbered.not_mem_handlers (hj : j.Numbered) {h : Handler} (hh : h ∈ j.closed) :
    h ∉ j.handlers := by
  intro hopen
  have hlt := hj.closed h hh
  rw [hj.handlers h hopen] at hlt
  exact Nat.lt_irrefl _ hlt

theorem mem_closed_afterAll {h : Handler} (hh : h ∈ j.closed) (calls : List Call) :
    h ∈ (j.afterAll calls).closed := by
  induction calls using List.reverseRecOn with
  | nil => exact hh
  | append_singleton calls c ih =>
    rw [afterAll_concat]
    rcases after_cases c (j.afterAll calls) with ⟨-, hsame⟩ | hreopened
    · rwa [hsame.closed]
    · rw [hreopened.closed]
      exact List.mem_append_left _ ih

/-- **Setting up anew closes every handler that is open**, and none is opened again. -/
theorem mem_closed_of_setUp {h : Handler} (hh : h ∈ j.handlers)
    (hsetUp : ∃ c ∈ calls, c.entry = .setUp) : h ∈ (j.afterAll calls).closed := by
  induction calls generalizing j with
  | nil =>
    obtain ⟨c, hc, -⟩ := hsetUp
    exact absurd hc List.not_mem_nil
  | cons c calls ih =>
    change h ∈ ((c.after j).afterAll calls).closed
    rcases after_cases c j with ⟨hother, hsame⟩ | hreopened
    · refine ih (hsame.handlers ▸ hh) ?_
      obtain ⟨d, hd, hentry⟩ := hsetUp
      rcases List.mem_cons.mp hd with rfl | hd
      · exact absurd hentry hother
      · exact ⟨d, hd, hentry⟩
    · refine mem_closed_afterAll ?_ calls
      rw [hreopened.closed]
      exact List.mem_append_right _ hh

/-- **Setups do not accumulate.**  After any calls the setup in force is that of one of them: the last
that sets up anew, or the first of all if there is none.  Open are a handler for the console and, if
that call asked for one, a handler for a file; the threshold is the one it asked for; every handler
that was open before a later setup is closed and no longer open; and every other call returns the
object of the setup in force and changes no handler. -/
theorem setups_do_not_accumulate (calls : List Call) (hcalls : calls ≠ []) : ∃ before c after object,
    calls = before ++ c :: after ∧ (c.entry = .setUp ∨ before = []) ∧
      (∀ d ∈ after, d.entry ≠ .setUp) ∧
      c.returned? (fresh.afterAll before) = some object ∧
      (fresh.afterAll calls).setup? = some ⟨object, c.request⟩ ∧
      (fresh.afterAll calls).threshold = c.request.threshold ∧
      (fresh.afterAll calls).handlers.map (·.sink) =
        .console :: (if c.request.toFile then [.file (path c.clock c.request)] else []) ∧
      (∀ earlier later, calls = earlier ++ later → (∃ d ∈ later, d.entry = .setUp) →
        ∀ h ∈ (fresh.afterAll earlier).handlers,
          h ∈ (fresh.afterAll calls).closed ∧ h ∉ (fresh.afterAll calls).handlers) ∧
      ∀ d : Call, d.entry ≠ .setUp →
        d.returned? (fresh.afterAll calls) = some object ∧
          (d.after (fresh.afterAll calls)).handlers = (fresh.afterAll calls).handlers ∧
          (d.after (fresh.afterAll calls)).closed = (fresh.afterAll calls).closed := by
  obtain ⟨before, c, after, object, hsplit, hlast, hkept, hforce, hreturned⟩ :=
    exists_inForce hcalls
  refine ⟨before, c, after, object, hsplit, hlast, hkept, hreturned, hforce.setup?,
    hforce.threshold, hforce.sinks, ?_, fun d hd => ⟨(hforce.after_eq hd).2, (hforce.after hd).2⟩⟩
  intro earlier later hparts hsetUp h hh
  have hclosed : h ∈ (fresh.afterAll calls).closed := by
    rw [hparts, afterAll_append]
    exact mem_closed_of_setUp hh hsetUp
  exact ⟨hclosed, (numbered_afterAll calls).not_mem_handlers hclosed⟩

/-- A file is kept at first, and none once the journal is set up anew; making the object afterwards
asks for a file in vain. -/
theorem setups_do_not_accumulate_file_at_first :
    ∃ object, (fresh.afterAll [⟨.get, ⟨"20240101", "", ""⟩, ⟨"logs", "debug", true⟩⟩,
        ⟨.setUp, ⟨"20240101", "", ""⟩, ⟨"logs", "error", false⟩⟩,
        ⟨.construct, ⟨"20240102", "", ""⟩, ⟨"logs", "info", true⟩⟩]).setup? =
          some ⟨object, ⟨"logs", "error", false⟩⟩ ∧
      (fresh.afterAll [⟨.get, ⟨"20240101", "", ""⟩, ⟨"logs", "debug", true⟩⟩,
        ⟨.setUp, ⟨"20240101", "", ""⟩, ⟨"logs", "error", false⟩⟩,
        ⟨.construct, ⟨"20240102", "", ""⟩, ⟨"logs", "info", true⟩⟩]).handlers.map (·.sink) =
          [.console] := by
  obtain ⟨-, c, -, object, -, -, -, -, hsetup, -, hsinks, -⟩ := setups_do_not_accumulate
    [⟨.get, ⟨"20240101", "", ""⟩, ⟨"logs", "debug", true⟩⟩,
      ⟨.setUp, ⟨"20240101", "", ""⟩, ⟨"logs", "error", false⟩⟩,
      ⟨.construct, ⟨"20240102", "", ""⟩, ⟨"logs", "info", true⟩⟩] (List.cons_ne_nil _ _)
  have hrequest : (⟨"logs", "error", false⟩ : Request) = c.request :=
    congrArg Setup.request (Option.some.inj hsetup)
  rw [← hrequest] at hsetup hsinks
  exact ⟨object, hsetup, hsinks⟩

end Journal

end FuzzyLogic.Log
