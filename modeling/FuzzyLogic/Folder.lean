import FuzzyLogic.Text.Path

/-!
# Folder — texts under paths

The files that settings are read from and that logs are written to: each path has at most one text.
Paths are compared in their one spelling.
-/

namespace FuzzyLogic

/-- Texts under distinct paths, in the order in which the paths were first written. -/
structure Folder where
  entries : List (String × String)

namespace Folder

/-- No file at all. -/
def empty : Folder := ⟨[]⟩

/-- The text under a path. -/
def read? (f : Folder) (path : String) : Option String := f.entries.lookup (Text.normalPath path)

/-- Puts a text under a path, in place of what is there. -/
def write (f : Folder) (path text : String) : Folder :=
  let key := Text.normalPath path
  if (f.entries.lookup key).isSome then
    ⟨f.entries.map fun e => if e.1 = key then (key, text) else e⟩
  else ⟨f.entries ++ [(key, text)]⟩

/-- Puts a text behind what is under a path, if only to make the file. -/
def append (f : Folder) (path text : String) : Folder :=
  f.write path ((f.read? path).getD "" ++ text)

theorem lookup_map_same {entries : List (String × String)} {key text : String}
    (h : (entries.lookup key).isSome) :
    (entries.map fun e => if e.1 = key then (key, text) else e).lookup key = some text := by
  induction entries with
  | nil => simp at h
  | cons e rest ih =>
    by_cases he : e.1 = key
    · simp [he]
    · have hne : (key == e.1) = false := by simpa using Ne.symm he
      rw [List.lookup_cons, hne] at h
      simp only [List.map_cons, if_neg he]
      rw [List.lookup_cons, hne]
      exact ih h

theorem lookup_append_same {entries : List (String × String)} {key text : String}
    (h : (entries.lookup key).isSome = false) :
    (entries ++ [(key, text)]).lookup key = some text := by
  induction entries with
  | nil => simp
  | cons e rest ih =>
    rw [List.lookup_cons] at h
    rw [List.cons_append, List.lookup_cons]
    cases hk : key == e.1 with
    | true => simp [hk] at h
    | false => exact ih (by simpa [hk] using h)

theorem read?_write_same (f : Folder) (path text : String) :
    (f.write path text).read? path = some text := by
  simp only [write, read?]
  split
  · next h => exact lookup_map_same h
  · next h => exact lookup_append_same (by simpa only [Bool.not_eq_true] using h)

end Folder

end FuzzyLogic
