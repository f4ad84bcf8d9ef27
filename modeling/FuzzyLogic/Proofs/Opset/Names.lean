import FuzzyLogic.Proofs.Opset.History
import FuzzyLogic.Proofs.Text.LetterCase

/-!
# Proofs/Opset/Names — the names of a registry

The names that a registry lists are its keys in order (`names_perm`, `names_sorted`).  Keys are in
lower case already, and looking one up takes the lower case of it once more; that changes nothing,
so that every listed name finds what is filed under it (`get?_of_mem_names`).
-/

namespace FuzzyLogic.Registry

variable {r : Registry} {name : String} {o : Opset}

theorem names_perm (r : Registry) : r.names.Perm (r.entries.map Prod.fst) := Fault.sorted_perm _

theorem names_sorted (r : Registry) : r.names.Pairwise (· ≤ ·) := Fault.sorted_pairwise _

theorem mem_names : name ∈ r.names ↔ ∃ o, (name, o) ∈ r.entries := by
  rw [r.names_perm.mem_iff, List.mem_map]
  constructor
  · rintro ⟨⟨_, o⟩, hmem, rfl⟩
    exact ⟨o, hmem⟩
  · rintro ⟨o, hmem⟩
    exact ⟨(name, o), hmem, rfl⟩

/-- What is under a key is found under the key. -/
theorem Filed.get?_of_mem (hr : r.Filed) (h : (name, o) ∈ r.entries) : r.get? name = some o := by
  have hkey : name = Text.lower o.name := hr.key_eq _ h
  rw [hr.get?_eq_some_iff, hkey, Text.lower_lower, ← hkey]
  exact h

/-- **Every listed name is found.** -/
theorem Filed.get?_of_mem_names (hr : r.Filed) (h : name ∈ r.names) :
    ∃ o, (name, o) ∈ r.entries ∧ r.get? name = some o := by
  obtain ⟨o, ho⟩ := mem_names.mp h
  exact ⟨o, ho, hr.get?_of_mem ho⟩

/-- Whatever is defined after the catalogue, the registry does not get empty. -/
theorem entries_ne_nil (history : List (Definition × Nat)) :
    (catalogue.afterAll history).entries ≠ [] := by
  have hyager1 : catalogue.find? "yager1" = some Catalogue.yager1 := rfl
  obtain ⟨o, ho, -⟩ := find?_afterAll hyager1
  exact List.ne_nil_of_mem (Entries.mem_of_lookup ho)

/-- The names of the catalogue. -/
theorem names_catalogue :
    catalogue.names = ["hamacher0", "hamacher1", "hamacher2", "yager1", "yagerinf"] :=
  List.Perm.eq_of_pairwise (fun _ _ _ _ => String.le_antisymm) catalogue.names_sorted (by decide)
    (catalogue.names_perm.trans (by decide))

end FuzzyLogic.Registry
