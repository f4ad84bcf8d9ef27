import FuzzyLogic.Fault
import FuzzyLogic.Text.Blank
import FuzzyLogic.Text.LetterCase

/-!
# Host/Markup — text with tags

A tag stands in square brackets and starts with a small letter, a hash sign, a slash or an at sign.
A tag with a slash closes: the last open tag, or the last one of its name.  Backslashes before a tag
escape: two of them are one, and an odd one makes the tag plain text.

`Markup.plain` is what remains without the tags.  `Markup.escape` writes a text so that its tags are
plain text.
-/

namespace FuzzyLogic.Markup

/-- Whether a character may start a tag. -/
def isTagStart (c : Char) : Bool := ('a' ≤ c && c ≤ 'z') || c == '#' || c == '/' || c == '@'

/-! ## Tags -/

/-- What stands between the brackets of the tag at the start, and what follows it.  A tag ends at the
first closing bracket, and no bracket opens inside it. -/
def tag? : List Char → Option (List Char × List Char)
  | '[' :: c :: rest =>
    let body := rest.takeWhile fun c => c != ']' && c != '['
    match rest.drop body.length with
    | ']' :: after => if isTagStart c then some (c :: body, after) else none
    | _ => none
  | _ => none

/-! ## Escaping -/

/-- Escapes tags. -/
def escapeTags (cs : List Char) : List Char :=
  let slashes := cs.takeWhile (· == '\\')
  match tag? (cs.drop slashes.length) with
  | some (body, after) =>
    if after.length < cs.length then
      slashes ++ (slashes ++ '\\' :: '[' :: (body ++ ']' :: escapeTags after))
    else cs
  | none =>
    match cs.drop slashes.length with
    | [] => cs
    | c :: after =>
      if after.length < cs.length then slashes ++ c :: escapeTags after else cs
termination_by cs.length

/-- Writes a text so that it stands for itself.  A single backslash at the end is doubled, for a tag
may follow. -/
def escape (s : String) : String :=
  let escaped := escapeTags s.toList
  String.ofList <|
    match escaped.reverse with
    | ['\\'] => escaped ++ ['\\']
    | '\\' :: c :: _ => if c = '\\' then escaped else escaped ++ ['\\']
    | _ => escaped

/-! ## Reading -/

/-- A stretch of a markup. -/
inductive Part
  | plain (text : List Char)
  /-- What stands between the brackets of a tag, and where the tag starts. -/
  | tag (body : List Char) (position : Nat)

/-- The parts of a markup that starts at a position.  `before` is the plain text just read, last
character first. -/
def partsFrom (position : Nat) (before : List Char) (cs : List Char) : List Part :=
  let slashes := cs.takeWhile (· == '\\')
  match tag? (cs.drop slashes.length) with
  | some (body, after) =>
    if after.length < cs.length then
      let half := slashes.length / 2
      let next := position + (cs.length - after.length)
      .plain before.reverse :: .plain (List.replicate half '\\') ::
        (if slashes.length % 2 = 0 then .tag body (position + 2 * half)
          else .plain ('[' :: (body ++ [']']))) ::
        partsFrom next [] after
    else []
  | none =>
    match cs.drop slashes.length with
    | [] => [.plain (before.reverse ++ slashes)]
    | c :: after =>
      if after.length < cs.length then
        partsFrom (position + slashes.length + 1) (c :: (slashes ++ before)) after
      else []
termination_by cs.length

/-- Plain text with its escaped brackets as brackets. -/
def bareBrackets : List Char → List Char
  | '\\' :: '[' :: rest => '[' :: bareBrackets rest
  | c :: rest => c :: bareBrackets rest
  | [] => []

/-- A name as tags are compared. -/
def tagName (body : List Char) : String :=
  Text.lower (Text.strip (String.ofList (body.takeWhile (· != '='))))

/-- Opens or closes a tag. -/
def follow (opened : List String) (body : List Char) (position : Nat) :
    Except Fault (List String) :=
  let fault (isNamed : Bool) : Fault :=
    .badMarkup ("closing tag '" ++ (if isNamed then "[" ++ String.ofList body ++ "]" else "[/]") ++
      "' at position " ++ toString position ++
      if isNamed then " doesn't match any open tag" else " has nothing to close")
  match body with
  | '/' :: name =>
    match tagName name, opened with
    | "", [] => .error (fault false)
    | "", _ :: rest => .ok rest
    | name, _ => if opened.contains name then .ok (opened.erase name) else .error (fault true)
  | _ => .ok (tagName body :: opened)

/-- The text of some parts. -/
def plainParts (opened : List String) : List Part → Except Fault (List Char)
  | [] => .ok []
  | .plain text :: rest => do return bareBrackets text ++ (← plainParts opened rest)
  | .tag body position :: rest => do
    let still ← follow opened body position
    plainParts still rest

/-- The text of a markup. -/
def plain (markup : String) : Except Fault String :=
  (plainParts [] (partsFrom 0 [] markup.toList)).map String.ofList

/-! ## Showing -/

/-- Whether a character moves the cursor of a terminal back or down a page: bell, backspace,
vertical tab, form feed, carriage return. -/
def isCursorControl (c : Char) : Bool :=
  let n := c.toNat
  n == 7 || n == 8 || n == 11 || n == 12 || n == 13

/-- Blanks in place of tabs, up to the next column that is a multiple of eight. -/
def expandTabs (column : Nat) : List Char → List Char
  | [] => []
  | c :: rest =>
    if c = '\t' then List.replicate (8 - column % 8) ' ' ++ expandTabs 0 rest
    else c :: expandTabs (if c = '\n' then 0 else column + 1) rest

/-- A text as a terminal shows it. -/
def displayed (s : String) : String :=
  String.ofList (expandTabs 0 (s.toList.filter (!isCursorControl ·)))

/-- A markup as a line of a terminal. -/
def line (markup : String) : Except Fault String :=
  (plain markup).map fun text => displayed text ++ "\n"

end FuzzyLogic.Markup
