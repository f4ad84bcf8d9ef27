/-!
# Settings/Environment — variables and their values

A name has at most one value; what is set last holds.  Variables are also set by files, whose texts
an `EnvReader` knows how to read.
-/

namespace FuzzyLogic

/-- The variables that are set. -/
structure Environment where
  entries : List (String × String)

namespace Environment

/-- Nothing set. -/
def empty : Environment := ⟨[]⟩

/-- The value of a variable, if it is set. -/
def get? (e : Environment) (name : String) : Option String := e.entries.lookup name

/-- Sets a variable. -/
def set (e : Environment) (name value : String) : Environment :=
  ⟨(name, value) :: e.entries.filter (·.1 != name)⟩

/-- Makes a variable unset. -/
def unset (e : Environment) (name : String) : Environment :=
  ⟨e.entries.filter (·.1 != name)⟩

theorem get?_set_same (e : Environment) (name value : String) :
    (e.set name value).get? name = some value := by
  simp [set, get?]

theorem lookup_filter_of_ne {α : Type} {entries : List (String × α)} {name other : String}
    (h : other ≠ name) : (entries.filter (·.1 != name)).lookup other = entries.lookup other := by
  induction entries with
  | nil => rfl
  | cons e rest ih =>
    by_cases he : e.1 = name
    · have hne : (other == e.1) = false := by simpa [he] using h
      rw [List.lookup_cons, hne, List.filter_cons_of_neg (by simp [he])]
      exact ih
    · rw [List.filter_cons_of_pos (by simp [he]), List.lookup_cons, List.lookup_cons, ih]

theorem get?_set_of_ne {name other : String} (e : Environment) (value : String)
    (h : other ≠ name) : (e.set name value).get? other = e.get? other := by
  have hne : (other == name) = false := by simpa using h
  rw [get?, set, List.lookup_cons, hne]
  exact lookup_filter_of_ne h

end Environment

/-- Reads the texts of files that set variables. -/
structure EnvReader where
  /-- An environment after a file. -/
  load : Environment → String → Environment
  /-- The complaints about a file. -/
  complaints : String → List String

/-- A file assigns every name that it has a value for, in whatever environment, and does nothing
else. -/
def EnvReader.Assigns (reader : EnvReader) (text : String) (value? : String → Option String) :
    Prop :=
  ∀ e name, (reader.load e text).get? name = (value? name).or (e.get? name)

end FuzzyLogic
