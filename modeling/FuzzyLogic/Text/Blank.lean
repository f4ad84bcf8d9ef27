/-!
# Text/Blank — white space

The characters that separate words and tokens, and texts with these removed at their ends.
-/

namespace FuzzyLogic.Text

/-- Whether a character is white space: the six ASCII blanks, the four ASCII separators, the next
line control and the separators of Unicode. -/
def isBlank (c : Char) : Bool :=
  let n := c.toNat
  (9 ≤ n && n ≤ 13) || (0x1C ≤ n && n ≤ 0x20) || n == 0x85 || n == 0xA0 || n == 0x1680 ||
    (0x2000 ≤ n && n ≤ 0x200A) || n == 0x2028 || n == 0x2029 || n == 0x202F || n == 0x205F ||
    n == 0x3000

/-- Characters without white space at the end. -/
def trimEnd (cs : List Char) : List Char := (cs.reverse.dropWhile isBlank).reverse

/-- Characters without white space at either end. -/
def trim (cs : List Char) : List Char := trimEnd (cs.dropWhile isBlank)

/-- A text without white space at either end. -/
def strip (s : String) : String := String.ofList (trim s.toList)

/-- The longest pieces without white space. -/
def words (cs : List Char) : List (List Char) :=
  match h : cs.dropWhile isBlank with
  | [] => []
  | c :: rest =>
    have : (rest.dropWhile (!isBlank ·)).length < cs.length := by
      have h₁ := (List.dropWhile_sublist (l := cs) isBlank).length_le
      have h₂ := (List.dropWhile_sublist (l := rest) (!isBlank ·)).length_le
      simp only [h, List.length_cons] at h₁
      omega
    (c :: rest.takeWhile (!isBlank ·)) :: words (rest.dropWhile (!isBlank ·))
termination_by cs.length

end FuzzyLogic.Text
