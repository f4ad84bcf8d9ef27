import FuzzyLogic.Entries

/-!
# Proofs/Entries — what is found under keys

Putting a value under a key changes what is found there and nothing else (`lookup_put`), and keeps
distinct keys distinct; overlaid entries are found before those below them (`lookup_overlay`).
-/

namespace FuzzyLogic.Entries

variable {α : Type} {entries : List (String × α)} {key other : String} {value : α}
  {entry : String × α}

/-- In place of what is under a key: only that key is affected, if there is anything under it. -/
theorem lookup_replace :
    (entries.map fun e => if e.1 = key then (key, value) else e).lookup other =
      if other = key then (entries.lookup key).map fun _ => value else entries.lookup other := by
  induction entries with
  | nil => simp
  | cons e rest ih =>
    obtain ⟨k, v⟩ := e
    rw [List.map_cons, List.lookup_cons, List.lookup_cons, List.lookup_cons, ih]
    by_cases hk : k = key
    · subst hk
      by_cases ho : other = k
      · simp [ho]
      · simp [ho, beq_eq_false_iff_ne.mpr ho]
    · have hkey : (key == k) = false := beq_eq_false_iff_ne.mpr (Ne.symm hk)
      rw [if_neg hk, hkey]
      by_cases ho : other = key
      · subst ho
        simp [hkey]
      · simp [ho]

/-- **What is put under a key is found there**, and all else is found as before. -/
theorem lookup_put :
    (put key value entries).lookup other =
      if other = key then some value else entries.lookup other := by
  unfold put
  split
  case isTrue h =>
    obtain ⟨v, hv⟩ := Option.isSome_iff_exists.mp h
    rw [lookup_replace, hv, Option.map_some]
  case isFalse h =>
    rw [Bool.not_eq_true, Option.isSome_eq_false_iff, Option.isNone_iff_eq_none] at h
    rw [List.lookup_append]
    by_cases ho : other = key
    · simp [ho, h]
    · simp [ho, List.lookup_cons, beq_eq_false_iff_ne.mpr ho]

/-- **What is overlaid is found first.** -/
theorem lookup_overlay (entries added : List (String × α)) (key : String) :
    (overlay entries added).lookup key = (added.lookup key).or (entries.lookup key) := by
  induction added with
  | nil => rfl
  | cons e rest ih =>
    obtain ⟨k, v⟩ := e
    rw [overlay, List.foldr_cons, lookup_put, List.lookup_cons]
    by_cases hk : key = k
    · simp [hk]
    · rw [if_neg hk, beq_eq_false_iff_ne.mpr hk]
      exact ih

/-- No entry comes in but what is put. -/
theorem mem_put (h : entry ∈ put key value entries) : entry = (key, value) ∨ entry ∈ entries := by
  unfold put at h
  split at h
  · obtain ⟨e, he, rfl⟩ := List.mem_map.mp h
    split
    · exact .inl rfl
    · exact .inr he
  · rcases List.mem_append.mp h with h | h
    · exact .inr h
    · exact .inl (List.mem_singleton.mp h)

theorem not_mem_keys (h : entries.lookup key = none) : key ∉ entries.map Prod.fst := by
  intro hmem
  obtain ⟨e, he, rfl⟩ := List.mem_map.mp hmem
  have hne := List.lookup_eq_none_iff.mp h e he
  simp at hne

/-- **Distinct keys stay distinct.** -/
theorem nodup_put (h : (entries.map Prod.fst).Nodup) :
    ((put key value entries).map Prod.fst).Nodup := by
  unfold put
  split
  case isTrue =>
    have hkeys : (entries.map fun e => if e.1 = key then (key, value) else e).map Prod.fst =
        entries.map Prod.fst := by
      rw [List.map_map]
      refine List.map_congr_left fun e _ => ?_
      rw [Function.comp_apply]
      split <;> simp_all
    rwa [hkeys]
  case isFalse hnone =>
    rw [Bool.not_eq_true, Option.isSome_eq_false_iff, Option.isNone_iff_eq_none] at hnone
    rw [List.map_append, List.nodup_append]
    refine ⟨h, by simp, fun k hk k' hk' hne => not_mem_keys hnone ?_⟩
    have hkey : k' = key := List.mem_singleton.mp hk'
    rwa [← hkey, ← hne]

theorem mem_of_lookup (h : entries.lookup key = some value) : (key, value) ∈ entries := by
  obtain ⟨before, after, rfl, -⟩ := List.lookup_eq_some_iff.mp h
  simp

/-- Under distinct keys the entries are what is found. -/
theorem lookup_eq_some_iff_mem (h : (entries.map Prod.fst).Nodup) :
    entries.lookup key = some value ↔ (key, value) ∈ entries := by
  refine ⟨mem_of_lookup, fun hmem => ?_⟩
  obtain ⟨before, after, rfl⟩ := List.append_of_mem hmem
  refine List.lookup_eq_some_iff.mpr ⟨before, after, rfl, fun e he => ?_⟩
  rw [List.map_append, List.nodup_append] at h
  have hne := h.2.2 e.1 (List.mem_map_of_mem he) key (by simp)
  simpa using Ne.symm hne

end FuzzyLogic.Entries
