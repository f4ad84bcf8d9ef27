/-!
# Entries — lists of entries under keys

A list of entries is read by its first entry under a key.  `Entries.put` writes one: in place of what
is under the key, else at the end, so that entries keep their order and distinct keys stay distinct.
-/

namespace FuzzyLogic.Entries

variable {α : Type}

/-- Puts a value under a key. -/
def put (key : String) (value : α) (entries : List (String × α)) : List (String × α) :=
  if (entries.lookup key).isSome then entries.map fun e => if e.1 = key then (key, value) else e
  else entries ++ [(key, value)]

/-- Puts all values of a list under their keys. -/
def overlay (entries added : List (String × α)) : List (String × α) :=
  added.foldr (fun e => put e.1 e.2) entries

end FuzzyLogic.Entries
