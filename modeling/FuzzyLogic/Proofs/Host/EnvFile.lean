import FuzzyLogic.Host.Expansion

/-!
# Proofs/Host/EnvFile — files without references

A value without dollar signs refers to nothing, and is what it says (`EnvFile.expand_of_plain`).  A
file of such values therefore has the same values in all environments, and reading it assigns them
and does nothing else (`EnvReader.standard_assigns`).
-/

namespace FuzzyLogic

namespace EnvFile

variable {e : Environment} {name text : String} {cs : List Char} {given : Assigned}

/-! ## Plain statements -/

/-- No value in a statement refers to a variable. -/
def Statement.isPlain : Statement → Bool
  | .binding _ (some value) => !value.toList.contains '$'
  | _ => true

theorem expand_of_plain (f : String → Option String → String) (h : '$' ∉ cs) :
    expand f cs = cs := by
  induction cs with
  | nil => rw [expand]
  | cons c rest ih =>
    obtain ⟨hc, hrest⟩ := not_or.mp (fun hmem => h (List.mem_cons.mpr hmem))
    rw [expand, beq_eq_false_iff_ne.mpr (Ne.symm hc)]
    exact congrArg (c :: ·) (ih hrest)

/-- What a plain statement gives does not depend on the environment. -/
theorem assign_of_plain (e : Environment) (given : Assigned) {s : Statement}
    (h : s.isPlain = true) : assign e given s = assign .empty given s := by
  cases s with
  | nothing | malformed _ => rfl
  | binding name value =>
    cases value with
    | none => rfl
    | some value =>
      have hvalue : '$' ∉ value.toList := by simpa [Statement.isPlain] using h
      simp only [assign, Option.map_some, expand_of_plain _ hvalue]

/-- **Nor does what a file of plain statements gives.** -/
theorem assigned_of_plain (e : Environment) (h : ∀ s ∈ statements text, s.isPlain = true) :
    assigned e text = assigned .empty text := by
  have hfold : ∀ (ss : List Statement) (given : Assigned), (∀ s ∈ ss, s.isPlain = true) →
      ss.foldl (assign e) given = ss.foldl (assign .empty) given := by
    intro ss
    induction ss with
    | nil => exact fun _ _ => rfl
    | cons s ss ih =>
      intro given h
      obtain ⟨hs, hrest⟩ := List.forall_mem_cons.mp h
      rw [List.foldl_cons, List.foldl_cons, assign_of_plain e given hs, ih _ hrest]
  exact hfold _ [] h

/-! ## What is set -/

theorem nodup_assign (h : (given.map Prod.fst).Nodup) (s : Statement) :
    ((assign e given s).map Prod.fst).Nodup := by
  cases s with
  | nothing | malformed _ => exact h
  | binding name value =>
    refine List.nodup_cons.mpr ⟨fun hmem => ?_, h.sublist (List.filter_sublist.map _)⟩
    obtain ⟨entry, hentry, heq⟩ := List.mem_map.mp hmem
    simpa [heq] using (List.mem_filter.mp hentry).2

theorem nodup_assigned (e : Environment) (text : String) :
    ((assigned e text).map Prod.fst).Nodup := by
  have hfold : ∀ (ss : List Statement) (given : Assigned), (given.map Prod.fst).Nodup →
      ((ss.foldl (assign e) given).map Prod.fst).Nodup := by
    intro ss
    induction ss with
    | nil => exact fun _ h => h
    | cons s ss ih => exact fun given h => ih _ (nodup_assign h s)
  exact hfold _ [] .nil

/-- The value that a file has for a name. -/
def value? (text name : String) : Option String :=
  (((assigned .empty text).lookup name).join).filter (isSettable name)

theorem get?_setGiven (e : Environment) (other : String) (value : Option String) :
    (setGiven e other value).get? name = if name = other
      then (value.filter (isSettable name)).or (e.get? name) else e.get? name := by
  unfold setGiven
  by_cases hname : name = other
  · subst hname
    rw [if_pos rfl]
    cases value.filter (isSettable name) with
    | none => rfl
    | some v => exact Environment.get?_set_same e name v
  · rw [if_neg hname]
    cases value.filter (isSettable other) with
    | none => rfl
    | some v => exact Environment.get?_set_of_ne e v hname

/-- What is under distinct names is set, as far as it can be, and nothing else. -/
theorem get?_foldl_setGiven (h : (given.map Prod.fst).Nodup) (e : Environment) (name : String) :
    (given.foldl (fun e g => setGiven e g.1 g.2) e).get? name =
      ((given.lookup name).join.filter (isSettable name)).or (e.get? name) := by
  induction given generalizing e with
  | nil => rfl
  | cons entry given ih =>
    obtain ⟨other, value⟩ := entry
    obtain ⟨hnew, hrest⟩ := List.nodup_cons.mp h
    rw [List.foldl_cons, ih hrest, get?_setGiven]
    by_cases hname : name = other
    · subst hname
      have hnone : given.lookup name = none := List.lookup_eq_none_iff.mpr fun p hp => by
        simpa using fun heq => hnew (List.mem_map.mpr ⟨p, hp, heq.symm⟩)
      rw [hnone, List.lookup_cons_self, if_pos rfl]
      rfl
    · rw [List.lookup_cons, beq_eq_false_iff_ne.mpr hname, if_neg hname]

end EnvFile

/-- **A file of plain statements assigns its values, and does nothing else.** -/
theorem EnvReader.standard_assigns {text : String}
    (h : ∀ s ∈ EnvFile.statements text, s.isPlain = true) :
    EnvReader.standard.Assigns text (EnvFile.value? text) := by
  intro e name
  have hload := EnvFile.get?_foldl_setGiven (EnvFile.nodup_assigned e text) e name
  rw [EnvFile.assigned_of_plain e h] at hload
  change (EnvFile.load e text).get? name = _
  rw [EnvFile.load, EnvFile.assigned_of_plain e h]
  exact hload

end FuzzyLogic
