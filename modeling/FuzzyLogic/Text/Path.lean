/-!
# Text/Path — names of folders and files

Paths have one spelling: parts that are empty or a single dot are dropped, and a path without parts
is a single dot.  Leading slashes stay: two are kept as two, any other number is one.
-/

namespace FuzzyLogic.Text

/-- The pieces of a list between the elements equal to a separator. -/
def pieces {α : Type} [DecidableEq α] (separator : α) : List α → List (List α)
  | [] => [[]]
  | x :: rest =>
    if x = separator then [] :: pieces separator rest
    else
      match pieces separator rest with
      | [] => [[x]]
      | piece :: others => (x :: piece) :: others

/-- The slashes that a path starts with. -/
def leadingSlashes (cs : List Char) : List Char :=
  match cs.takeWhile (· == '/') with
  | [] => []
  | ['/', '/'] => ['/', '/']
  | _ => ['/']

/-- The one spelling of a path. -/
def normalPath (path : String) : String :=
  let cs := path.toList
  let parts := (pieces '/' cs).filter fun part => part != [] && part != ['.']
  match leadingSlashes cs ++ ['/'].intercalate parts with
  | [] => "."
  | normal => String.ofList normal

/-- A name inside a folder. -/
def joinPath (folder name : String) : String :=
  if folder = "." then name
  else if folder.toList.getLast? = some '/' then folder ++ name
  else folder ++ "/" ++ name

end FuzzyLogic.Text
