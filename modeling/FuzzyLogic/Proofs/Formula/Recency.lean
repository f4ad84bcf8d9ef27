import FuzzyLogic.Proofs.Entries
import FuzzyLogic.Proofs.Formula.Compilation
import Mathlib.Data.Finset.Card
import Mathlib.Data.List.Nodup

/-!
# Proofs/Formula/Recency — which formulas a cache still keeps

What a cache keeps is told by the requests alone.  Of the texts that have been requested and
compile, the most recently requested first and each once (`recent`), it keeps as many as it has room
for (`keys_after`).  The texts in front of one are those requested since (`recent_of_split`), so that
**a text is found exactly if fewer others than there is room for have been requested since**.

A formula that is kept is the very one that the last request for its text was answered with
(`kept_is_last_answer`), and one that is compiled anew is unlike all before (`serial_lt_misses`).
-/

namespace FuzzyLogic

/-! ## Histories -/

namespace CacheRequest

/-- What is asked for can be looked up. -/
def isHashable : CacheRequest → Bool
  | .unhashable _ => false
  | _ => true

/-- What asking without a cache gives. -/
def fresh : CacheRequest → Except Fault Compiled
  | .text source => Compiled.ofSource source
  | .other typeName => .error (.badSource typeName)
  | .unhashable typeName => .error (.unhashable typeName)

/-- The text that is asked for, if it compiles. -/
def success? : CacheRequest → Option String
  | .text source => if (Compiled.ofSource source).isOk then some source else none
  | _ => none

theorem success?_of_ok {source : String} {compiled : Compiled}
    (h : Compiled.ofSource source = .ok compiled) : success? (.text source) = some source := by
  rw [success?, h]
  rfl

theorem success?_of_error {source : String} {fault : Fault}
    (h : Compiled.ofSource source = .error fault) : success? (.text source) = none := by
  rw [success?, h]
  rfl

/-- A text that compiles is asked for by no request but its own. -/
theorem success?_eq_some_iff {r : CacheRequest} {source : String} :
    r.success? = some source ↔ r = .text source ∧ ∃ c, Compiled.ofSource source = .ok c := by
  cases r with
  | other => exact iff_of_false nofun (by rintro ⟨h, -⟩; exact nomatch h)
  | unhashable => exact iff_of_false nofun (by rintro ⟨h, -⟩; exact nomatch h)
  | text other =>
    cases h : Compiled.ofSource other with
    | error fault =>
      rw [success?_of_error h]
      refine iff_of_false nofun ?_
      rintro ⟨heq, c, hc⟩
      obtain rfl := CacheRequest.text.inj heq
      exact nomatch h.symm.trans hc
    | ok compiled =>
      rw [success?_of_ok h]
      constructor
      · intro heq
        obtain rfl := Option.some.inj heq
        exact ⟨rfl, compiled, h⟩
      · rintro ⟨heq, -⟩
        rw [CacheRequest.text.inj heq]

end CacheRequest

namespace CompileCache

/-- The texts asked for that compile, in turn. -/
def successes (rs : List CacheRequest) : List String := rs.filterMap CacheRequest.success?

/-- Moves a text to the front. -/
def touch (texts : List String) (source : String) : List String :=
  source :: texts.filter (· != source)

/-- Texts in turn, the last one first, each once. -/
def recent (texts : List String) : List String := texts.foldl touch []

variable {texts since : List String} {source other : String} {n : ℕ}

/-! ## Recency -/

theorem mem_touch : other ∈ touch texts source ↔ other = source ∨ other ∈ texts := by
  by_cases h : other = source <;> simp [touch, h]

theorem recent_concat : recent (texts ++ [source]) = touch (recent texts) source :=
  List.foldl_concat ..

@[simp] theorem mem_recent : other ∈ recent texts ↔ other ∈ texts := by
  induction texts using List.reverseRecOn with
  | nil => rfl
  | append_singleton texts source ih =>
    rw [recent_concat, mem_touch, ih, List.mem_append, List.mem_singleton, or_comm]

theorem nodup_recent (texts : List String) : (recent texts).Nodup := by
  induction texts using List.reverseRecOn with
  | nil => exact List.nodup_nil
  | append_singleton texts source ih =>
    rw [recent_concat, touch, List.nodup_cons]
    exact ⟨by simp, ih.filter _⟩

theorem length_recent (texts : List String) : (recent texts).length = texts.toFinset.card := by
  rw [← List.toFinset_card_of_nodup (nodup_recent texts)]
  congr 1
  ext text
  simp

/-- What comes later goes to the front, and moves nothing else but what comes again. -/
theorem foldl_touch (texts since : List String) :
    since.foldl touch texts = recent since ++ texts.filter (· ∉ since) := by
  induction since using List.reverseRecOn with
  | nil => simp [recent]
  | append_singleton since source ih =>
    rw [List.foldl_concat, ih, recent_concat, touch, touch, List.filter_append, List.filter_filter,
      List.cons_append]
    congr 3
    funext text
    rw [Bool.eq_iff_iff]
    simp [not_or, and_comm]

/-- In front of a text is what has come since. -/
theorem recent_of_split (texts : List String) (h : source ∉ since) :
    ∃ rest, recent (texts ++ source :: since) = recent since ++ source :: rest := by
  refine ⟨((recent texts).filter (· != source)).filter (· ∉ since), ?_⟩
  rw [recent, List.foldl_append, List.foldl_cons, foldl_touch, touch,
    List.filter_cons_of_pos (by simpa using h)]
  rfl

theorem mem_take_recent_iff (texts : List String) (h : source ∉ since) :
    source ∈ (recent (texts ++ source :: since)).take n ↔ since.toFinset.card < n := by
  obtain ⟨rest, hrest⟩ := recent_of_split texts h
  rw [hrest, ← length_recent, List.take_append, List.mem_append]
  have hnot : source ∉ (recent since).take n := fun hmem =>
    h (mem_recent.mp (List.mem_of_mem_take hmem))
  rw [or_iff_right hnot]
  constructor
  · intro hmem
    by_contra hge
    rw [Nat.sub_eq_zero_of_le (not_lt.mp hge)] at hmem
    exact nomatch hmem
  · intro hlt
    obtain ⟨k, hk⟩ : ∃ k, n - (recent since).length = k + 1 :=
      ⟨n - (recent since).length - 1, by omega⟩
    rw [hk, List.take_succ_cons]
    exact List.mem_cons_self

/-- Room for one text less holds what is left without a text that was held. -/
theorem filter_take_of_mem (h : texts.Nodup) (hmem : source ∈ texts.take (n + 1)) :
    (texts.take (n + 1)).filter (· != source) = (texts.filter (· != source)).take n := by
  induction texts generalizing n with
  | nil => exact nomatch hmem
  | cons text texts ih =>
    rw [List.take_succ_cons] at hmem ⊢
    obtain ⟨hnot, hnodup⟩ := List.nodup_cons.mp h
    by_cases heq : text = source
    · subst heq
      have hall : ∀ u ∈ texts, (u != text) = true := fun u hu => by
        rw [bne_iff_ne]
        exact fun h => hnot (h ▸ hu)
      rw [List.filter_cons_of_neg (by simp), List.filter_cons_of_neg (by simp),
        List.filter_eq_self.mpr hall,
        List.filter_eq_self.mpr fun u hu => hall u (List.mem_of_mem_take hu)]
    · have hmem := (List.mem_cons.mp hmem).resolve_left (Ne.symm heq)
      cases n with
      | zero => exact nomatch hmem
      | succ n =>
        rw [List.filter_cons_of_pos (by simpa using heq),
          List.filter_cons_of_pos (by simpa using heq), List.take_succ_cons, ih hnodup hmem]

/-- What is not held leaves no room. -/
theorem take_filter_of_not_mem (hmem : source ∉ texts.take n) :
    (texts.filter (· != source)).take n = texts.take n := by
  induction texts generalizing n with
  | nil => rfl
  | cons text texts ih =>
    cases n with
    | zero => rfl
    | succ n =>
      rw [List.take_succ_cons, List.mem_cons, not_or] at hmem
      rw [List.filter_cons_of_pos (by simpa using Ne.symm hmem.1), List.take_succ_cons,
        List.take_succ_cons, ih hmem.2]

/-! ## One request -/

variable {c : CompileCache} {r : CacheRequest} {rs before : List CacheRequest} {h : Handle}

/-- **All that a request can do**: the answer and the cache after it. -/
inductive Answers (c : CompileCache) : CacheRequest → Except Fault Handle × CompileCache → Prop
  | unhashable (typeName : String) :
      Answers c (.unhashable typeName) (.error (.unhashable typeName), c)
  | other (typeName : String) : Answers c (.other typeName) (.error (.badSource typeName), c.miss)
  | hit {source : String} {h : Handle} : c.find? source = some h →
      Answers c (.text source) (.ok h, c.hit source h)
  | refused {source : String} {fault : Fault} : c.find? source = none →
      Compiled.ofSource source = .error fault → Answers c (.text source) (.error fault, c.miss)
  | compiled {source : String} {compiled : Compiled} : c.find? source = none →
      Compiled.ofSource source = .ok compiled →
      Answers c (.text source) (.ok ⟨c.misses, compiled⟩, c.insert source ⟨c.misses, compiled⟩)

theorem answers_request (c : CompileCache) (r : CacheRequest) : Answers c r (c.request r) := by
  cases r with
  | unhashable typeName => exact .unhashable typeName
  | other typeName => exact .other typeName
  | text source =>
    rw [request]
    split
    case h_1 h hfind => exact .hit hfind
    case h_2 hfind =>
      split
      case h_1 fault hfault => exact .refused hfind hfault
      case h_2 compiled hok => exact .compiled hfind hok

theorem find?_isSome_iff : (c.find? source).isSome = true ↔ source ∈ c.entries.map Prod.fst := by
  rw [find?, List.lookup_isSome_iff, List.mem_map]
  exact exists_congr fun e => and_congr_right fun _ => beq_iff_eq.trans eq_comm

/-- A request is a hit when it is counted as one. -/
def Hits (c : CompileCache) (r : CacheRequest) : Prop := (c.request r).2.hits = c.hits + 1

theorem hits_iff : c.Hits r ↔ ∃ source, r = .text source ∧ source ∈ c.entries.map Prod.fst := by
  have h := answers_request c r
  rw [Hits]
  generalize c.request r = answer at h
  cases h with
  | unhashable typeName => exact iff_of_false (by simp) (by simp)
  | other typeName => exact iff_of_false (by simp [miss]) (by simp)
  | hit hfind => exact iff_of_true rfl ⟨_, rfl, find?_isSome_iff.mp (by rw [hfind]; rfl)⟩
  | refused hfind _ | compiled hfind _ =>
    refine iff_of_false (by simp [miss, insert]) ?_
    rintro ⟨_, heq, hmem⟩
    obtain rfl := CacheRequest.text.inj heq
    rw [← find?_isSome_iff, hfind] at hmem
    cases hmem

/-! ## The cache after a history -/

/-- The cache after requests in turn, which was empty at first. -/
def after (rs : List CacheRequest) : CompileCache := rs.foldl (fun c r => (c.request r).2) .empty

theorem after_concat : after (rs ++ [r]) = ((after rs).request r).2 := List.foldl_concat ..

theorem reachable_after (rs : List CacheRequest) : Reachable (after rs) := by
  induction rs using List.reverseRecOn with
  | nil => exact .empty
  | append_singleton rs r ih => exact after_concat ▸ ih.request r

/-- The outcomes of requests in turn are those after what came before. -/
theorem requestAll_getElem? (before : List CacheRequest) (r : CacheRequest)
    (more : List CacheRequest) :
    (requestAll .empty (before ++ r :: more))[before.length]? =
      some ((after before).request r) := by
  have hall : ∀ c : CompileCache, (c.requestAll (before ++ r :: more))[before.length]? =
      some ((before.foldl (fun c r => (c.request r).2) c).request r) := by
    induction before with
    | nil => exact fun c => rfl
    | cons first before ih => exact fun c => ih (c.request first).2
  exact hall .empty

theorem successes_concat : successes (rs ++ [r]) = successes rs ++ r.success?.toList := by
  rw [successes, List.filterMap_append]
  cases h : r.success? <;> simp [successes, h]

/-- A request changes which texts are kept as it changes which have been requested. -/
theorem keys_request {texts : List String} (hc : c.Faithful) (htexts : texts.Nodup)
    (hkeys : c.entries.map Prod.fst = texts.take capacity) :
    (c.request r).2.entries.map Prod.fst = (r.success?.toList.foldl touch texts).take capacity := by
  have h := answers_request c r
  generalize c.request r = answer at h
  cases h with
  | unhashable typeName | other typeName => exact hkeys
  | @hit source h hfind =>
    have hmem : source ∈ texts.take capacity :=
      hkeys ▸ find?_isSome_iff.mp (by rw [hfind]; rfl)
    rw [CacheRequest.success?_of_ok (hc.find? hfind)]
    change source :: (c.entries.filter (·.1 != source)).map Prod.fst =
      source :: (texts.filter (· != source)).take 255
    rw [← filter_take_of_mem htexts hmem, show texts.take (255 + 1) = texts.take capacity from rfl,
      ← hkeys, List.filter_map]
    rfl
  | @refused source fault hfind hfault =>
    rw [CacheRequest.success?_of_error hfault]
    exact hkeys
  | @compiled source compiled hfind hok =>
    have hmem : source ∉ texts.take 255 := fun hmem => by
      have hkey := hkeys ▸ List.take_subset_take_left texts (show 255 ≤ capacity by decide) hmem
      exact Entries.not_mem_keys hfind hkey
    rw [CacheRequest.success?_of_ok hok]
    change (((source, _) :: c.entries).take capacity).map Prod.fst =
      source :: (texts.filter (· != source)).take 255
    rw [take_filter_of_not_mem hmem, List.map_take, List.map_cons, hkeys]
    change source :: (texts.take capacity).take 255 = _
    rw [List.take_take]
    rfl

/-- **The texts kept are the most recently requested ones that compile**, as many as there is room
for, in the order of their last requests. -/
theorem keys_after (rs : List CacheRequest) :
    (after rs).entries.map Prod.fst = (recent (successes rs)).take capacity := by
  induction rs using List.reverseRecOn with
  | nil => rfl
  | append_singleton rs r ih =>
    rw [after_concat, successes_concat, recent, List.foldl_append]
    exact keys_request (reachable_after rs).faithful (nodup_recent _) ih

theorem size_after_le (rs : List CacheRequest) : (after rs).size ≤ capacity := by
  rw [size, ← List.length_map Prod.fst, keys_after, List.length_take]
  exact Nat.min_le_left ..

/-! ## The last request for a text -/

/-- Where in a history a text was last asked for: the requests before that one and those since. -/
structure LastAsked (before : List CacheRequest) (source : String)
    (earlier since : List CacheRequest) : Prop where
  split : before = earlier ++ .text source :: since
  last : .text source ∉ since

variable {earlier later : List CacheRequest}

/-- With one more request, a text was last asked for by that one or where it was before. -/
theorem LastAsked.of_concat (h : LastAsked (before ++ [r]) source earlier later) :
    r = .text source ∧ earlier = before ∨
      r ≠ .text source ∧ ∃ later', LastAsked before source earlier later' := by
  obtain ⟨hsplit, hlast⟩ := h
  rcases later.eq_nil_or_concat' with rfl | ⟨later', r', rfl⟩
  · obtain ⟨rfl, hr⟩ := List.append_inj' hsplit rfl
    exact .inl ⟨(List.cons.inj hr).1, rfl⟩
  · rw [← List.cons_append, ← List.append_assoc] at hsplit
    obtain ⟨hbefore, hr⟩ := List.append_inj' hsplit rfl
    obtain rfl := (List.cons.inj hr).1
    rw [List.mem_append, List.mem_singleton, not_or] at hlast
    exact .inr ⟨Ne.symm hlast.2, later', hbefore, hlast.1⟩

theorem exists_lastAsked (h : .text source ∈ before) :
    ∃ earlier later, LastAsked before source earlier later := by
  induction before using List.reverseRecOn with
  | nil => exact nomatch h
  | append_singleton before r ih =>
    by_cases hr : r = .text source
    · exact ⟨before, [], hr ▸ rfl, nofun⟩
    · rcases List.mem_append.mp h with h | h
      · obtain ⟨earlier, later, rfl, hlast⟩ := ih h
        refine ⟨earlier, later ++ [r], by simp, ?_⟩
        rw [List.mem_append, List.mem_singleton, not_or]
        exact ⟨hlast, Ne.symm hr⟩
      · exact absurd (List.mem_singleton.mp h).symm hr

/-- **A text is kept exactly if it compiles, has been asked for, and fewer others that compile than
there is room for have been since.** -/
theorem mem_keys_after_iff : source ∈ (after before).entries.map Prod.fst ↔
    (∃ compiled, Compiled.ofSource source = .ok compiled) ∧
      ∃ earlier later, LastAsked before source earlier later ∧
        (successes later).toFinset.card < capacity := by
  have hsplit : ∀ {earlier later}, (∃ compiled, Compiled.ofSource source = .ok compiled) →
      LastAsked before source earlier later →
      (source ∈ (recent (successes before)).take capacity ↔
        (successes later).toFinset.card < capacity) := by
    rintro earlier later hok ⟨rfl, hlast⟩
    have hnot : source ∉ successes later := by
      rintro hmem
      obtain ⟨r, hr, hsuccess⟩ := List.mem_filterMap.mp hmem
      exact hlast ((CacheRequest.success?_eq_some_iff.mp hsuccess).1 ▸ hr)
    rw [← mem_take_recent_iff (successes earlier) hnot, successes, List.filterMap_append,
      List.filterMap_cons_some (CacheRequest.success?_eq_some_iff.mpr ⟨rfl, hok⟩)]
    rfl
  rw [keys_after]
  constructor
  · intro hmem
    obtain ⟨r, hr, hsuccess⟩ := List.mem_filterMap.mp (mem_recent.mp (List.mem_of_mem_take hmem))
    obtain ⟨rfl, hok⟩ := CacheRequest.success?_eq_some_iff.mp hsuccess
    obtain ⟨earlier, later, hasked⟩ := exists_lastAsked hr
    exact ⟨hok, earlier, later, hasked, (hsplit hok hasked).mp hmem⟩
  · rintro ⟨hok, earlier, later, hasked, hcard⟩
    exact (hsplit hok hasked).mpr hcard

/-! ## The same formula, and a new one -/

/-- What is kept after a request was handed out by it, or kept before and not asked for. -/
theorem mem_entries_request (hmem : (source, h) ∈ (c.request r).2.entries) :
    r = .text source ∧ (c.request r).1 = .ok h ∨ r ≠ .text source ∧ (source, h) ∈ c.entries := by
  have hanswer := answers_request c r
  generalize c.request r = answer at hanswer hmem
  cases hanswer with
  | unhashable typeName | other typeName => exact .inr ⟨nofun, hmem⟩
  | @hit text kept hfind =>
    rcases List.mem_cons.mp hmem with heq | hmem
    · obtain ⟨rfl, rfl⟩ := Prod.mk.inj heq
      exact .inl ⟨rfl, rfl⟩
    · obtain ⟨hmem, hne⟩ := List.mem_filter.mp hmem
      refine .inr ⟨fun heq => ?_, hmem⟩
      rw [CacheRequest.text.inj heq] at hne
      simp at hne
  | refused hfind _ =>
    refine .inr ⟨fun heq => ?_, hmem⟩
    obtain rfl := CacheRequest.text.inj heq
    exact Entries.not_mem_keys hfind (List.mem_map_of_mem hmem)
  | compiled hfind _ =>
    rcases List.mem_cons.mp (List.mem_of_mem_take hmem) with heq | hmem
    · obtain ⟨rfl, rfl⟩ := Prod.mk.inj heq
      exact .inl ⟨rfl, rfl⟩
    · refine .inr ⟨fun heq => ?_, hmem⟩
      obtain rfl := CacheRequest.text.inj heq
      exact Entries.not_mem_keys hfind (List.mem_map_of_mem hmem)

/-- **What is kept under a text is what the last request for it was answered with.** -/
theorem kept_is_last_answer (hmem : (source, h) ∈ (after before).entries)
    (hasked : LastAsked before source earlier later) :
    ((after earlier).request (.text source)).1 = .ok h := by
  induction before using List.reverseRecOn generalizing later with
  | nil => exact nomatch hmem
  | append_singleton before r ih =>
    rw [after_concat] at hmem
    rcases mem_entries_request hmem with ⟨rfl, hanswer⟩ | ⟨hne, hmem⟩
    · obtain ⟨-, rfl⟩ | ⟨hne, -⟩ := hasked.of_concat
      · exact hanswer
      · exact absurd rfl hne
    · obtain ⟨heq, -⟩ | ⟨-, later', hasked⟩ := hasked.of_concat
      · exact absurd heq hne
      · exact ih hmem hasked

/-- Serials that have been given are below the number of misses. -/
def Numbered (c : CompileCache) : Prop := ∀ e ∈ c.entries, e.2.serial < c.misses

theorem misses_le_request (c : CompileCache) (r : CacheRequest) :
    c.misses ≤ (c.request r).2.misses := by
  have hanswer := answers_request c r
  generalize c.request r = answer at hanswer
  cases hanswer with
  | unhashable | hit => exact le_rfl
  | other | refused | compiled => exact Nat.le_succ _

/-- What is handed out has been numbered. -/
theorem Numbered.answer (hc : c.Numbered) (hanswer : (c.request r).1 = .ok h) :
    h.serial < (c.request r).2.misses := by
  have hstep := answers_request c r
  generalize c.request r = answer at hstep hanswer
  cases hstep with
  | unhashable | other | refused => exact nomatch hanswer
  | hit hfind =>
    obtain rfl := Except.ok.inj hanswer
    exact hc _ (Entries.mem_of_lookup hfind)
  | compiled =>
    obtain rfl := Except.ok.inj hanswer
    exact Nat.lt_succ_self _

theorem Numbered.request (hc : c.Numbered) (r : CacheRequest) : (c.request r).2.Numbered := by
  rintro ⟨source, h⟩ hmem
  rcases mem_entries_request hmem with ⟨-, hanswer⟩ | ⟨-, hmem⟩
  · exact hc.answer hanswer
  · exact (hc _ hmem).trans_le (misses_le_request c r)

theorem numbered_after (rs : List CacheRequest) : (after rs).Numbered := by
  induction rs using List.reverseRecOn with
  | nil => exact nofun
  | append_singleton rs r ih => exact after_concat ▸ ih.request r

theorem misses_after_le (rs more : List CacheRequest) :
    (after rs).misses ≤ (after (rs ++ more)).misses := by
  induction more using List.reverseRecOn with
  | nil => rw [List.append_nil]
  | append_singleton more r ih =>
    rw [← List.append_assoc, after_concat]
    exact ih.trans (misses_le_request _ r)

/-- **What has been handed out has a serial below the number of misses**, which the next formula
that is compiled gets. -/
theorem serial_lt_misses {later : List CacheRequest} (hsplit : before = earlier ++ r :: later)
    (hanswer : ((after earlier).request r).1 = .ok h) : h.serial < (after before).misses := by
  have hlt := (numbered_after earlier).answer hanswer
  rw [← after_concat] at hlt
  rw [hsplit, ← List.singleton_append, ← List.append_assoc]
  exact hlt.trans_le (misses_after_le _ later)

/-! ## Answers and counts -/

theorem map_compiled_request (hc : c.Faithful) (r : CacheRequest) :
    (c.request r).1.map (·.compiled) = r.fresh := by
  cases r with
  | text source => exact (hc.request_text source).1
  | other typeName | unhashable typeName => rfl

/-- A hit hands out what is kept. -/
theorem Hits.exists_kept (h : c.Hits r) :
    ∃ source kept, r = .text source ∧ (source, kept) ∈ c.entries ∧ (c.request r).1 = .ok kept := by
  obtain ⟨source, rfl, hmem⟩ := hits_iff.mp h
  obtain ⟨kept, hkept⟩ := Option.isSome_iff_exists.mp (find?_isSome_iff.mpr hmem)
  refine ⟨source, kept, rfl, Entries.mem_of_lookup hkept, ?_⟩
  rw [request, hkept]

/-- What is handed out without a hit is new. -/
theorem serial_of_not_hits (hmiss : ¬ c.Hits r) (hanswer : (c.request r).1 = .ok h) :
    h.serial = c.misses := by
  have hstep := answers_request c r
  rw [Hits] at hmiss
  generalize c.request r = answer at hstep hanswer hmiss
  cases hstep with
  | unhashable | other | refused => exact nomatch hanswer
  | hit => exact absurd rfl hmiss
  | compiled =>
    obtain rfl := Except.ok.inj hanswer
    rfl

/-- A request that fails is counted as a miss, if it can be looked up, and changes nothing else. -/
theorem request_of_error {fault : Fault} (hanswer : (c.request r).1 = .error fault) :
    (c.request r).2 = if r.isHashable then c.miss else c := by
  have hstep := answers_request c r
  generalize c.request r = answer at hstep hanswer
  cases hstep with
  | unhashable | other | refused => rfl
  | hit | compiled => exact nomatch hanswer

theorem count_request (c : CompileCache) (r : CacheRequest) :
    (c.request r).2.hits + (c.request r).2.misses =
      c.hits + c.misses + [r].countP (·.isHashable) := by
  have hstep := answers_request c r
  generalize c.request r = answer at hstep
  cases hstep with
  | unhashable | other | refused | compiled => rfl
  | hit => exact Nat.add_right_comm ..

/-- Hits and misses together are the requests that can be looked up. -/
theorem count_after (rs : List CacheRequest) :
    (after rs).hits + (after rs).misses = rs.countP (·.isHashable) := by
  induction rs using List.reverseRecOn with
  | nil => rfl
  | append_singleton rs r ih => rw [after_concat, count_request, ih, List.countP_append]

/-- **What a cache does after any history.**  Let requests have been made in turn of a cache that
was empty at first, and let one more be made.

* It is answered as without a cache, and no more is kept than there is room for.
* It is a hit exactly if it asks for a text that compiles and has been asked for, and fewer other
  texts that compile than there is room for have been asked for since the last request for it.
* A hit hands out the very formula that this last request was answered with; a formula handed out
  without a hit is none of those handed out before.
* A request that fails is counted as a miss, if it can be looked up, and changes nothing else.
* Hits and misses together are the requests that can be looked up. -/
theorem request_after_history (before : List CacheRequest) (r : CacheRequest) :
    (∀ more, (requestAll .empty (before ++ r :: more))[before.length]? =
      some ((after before).request r)) ∧
    ((after before).request r).1.map (·.compiled) = r.fresh ∧
    (after before).size ≤ capacity ∧
    ((after before).Hits r ↔ ∃ source, r = .text source ∧
      (∃ compiled, Compiled.ofSource source = .ok compiled) ∧
      ∃ earlier later, LastAsked before source earlier later ∧
        (successes later).toFinset.card < capacity) ∧
    (∀ source earlier later, (after before).Hits (.text source) →
      LastAsked before source earlier later →
      ((after before).request (.text source)).1 = ((after earlier).request (.text source)).1) ∧
    (∀ h, ¬ (after before).Hits r → ((after before).request r).1 = .ok h →
      ∀ earlier r' later h', before = earlier ++ r' :: later →
        ((after earlier).request r').1 = .ok h' → h'.serial ≠ h.serial) ∧
    (∀ fault, ((after before).request r).1 = .error fault →
      ((after before).request r).2 = if r.isHashable then (after before).miss else after before) ∧
    (after before).hits + (after before).misses = before.countP (·.isHashable) := by
  refine ⟨requestAll_getElem? before r, map_compiled_request (reachable_after before).faithful r,
    size_after_le before, ?_, ?_, ?_, fun fault => request_of_error, count_after before⟩
  · exact hits_iff.trans <| exists_congr fun source => and_congr_right fun _ => mem_keys_after_iff
  · intro source earlier later hhits hasked
    obtain ⟨_, kept, heq, hkept, hanswer⟩ := hhits.exists_kept
    obtain rfl := CacheRequest.text.inj heq
    rw [hanswer, kept_is_last_answer hkept hasked]
  · intro h hmiss hanswer earlier r' later h' hsplit hanswer'
    rw [serial_of_not_hits hmiss hanswer]
    exact (serial_lt_misses hsplit hanswer').ne

/-- After `a`, a text that fails and `b`, a second request for `a` is a hit and hands out the
formula of the first. -/
theorem second_request_hits :
    (after [.text "a", .text "a &", .text "b"]).Hits (.text "a") ∧
    ((after [.text "a", .text "a &", .text "b"]).request (.text "a")).1 =
      (CompileCache.empty.request (.text "a")).1 := by
  obtain ⟨-, -, -, hiff, hsame, -⟩ :=
    request_after_history [.text "a", .text "a &", .text "b"] (.text "a")
  have hasked : LastAsked [.text "a", .text "a &", .text "b"] "a" [] [.text "a &", .text "b"] :=
    ⟨rfl, by simp⟩
  have hfew : (successes [.text "a &", .text "b"]).toFinset.card < capacity :=
    ((List.toFinset_card_le _).trans (List.length_filterMap_le _ _)).trans_lt (by decide)
  have hhits := hiff.mpr ⟨"a", rfl, ⟨⟨"a", .name "a" 0⟩, by cbv⟩, [], _, hasked, hfew⟩
  exact ⟨hhits, hsame "a" _ _ hhits hasked⟩

end CompileCache

end FuzzyLogic
