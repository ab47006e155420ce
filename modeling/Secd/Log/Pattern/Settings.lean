import Secd.Text.Blank

/-!
Settings that a pattern can change while it is read. A group may begin with letters that turn
settings on, and behind a dash with letters that turn them off; in a group of its own, such a list
holds for the rest of the group around it.

      (?x: LDC | POP )     blanks mean nothing
      (?i-u)ldc            letters of either case, one byte each

Three of the seven settings have a say in what can be read. The others decide what is matched.
-/

namespace Secd.Log.Pattern

/-- The settings that have a say in what can be read. -/
structure Settings where
  /-- Characters are those of all scripts; otherwise a class of characters is one of bytes. -/
  unicode : Bool := true
  /-- Letters match in either case. -/
  ignoreCase : Bool := false
  /-- Blanks and comments mean nothing. -/
  spaced : Bool := false
  deriving DecidableEq

namespace Settings

/-- The letters of all settings. -/
def letters : List Char := ['i', 'm', 's', 'U', 'u', 'R', 'x']

/-- Turns the setting with a letter on or off. -/
def set (on : Bool) (s : Settings) (letter : Char) : Settings :=
  match letter with
  | 'u' => { s with unicode := on }
  | 'i' => { s with ignoreCase := on }
  | 'x' => { s with spaced := on }
  | _ => s

/-- Applies a list of letters. No letter occurs twice, and at least one stands behind a dash. -/
def change? (s : Settings) (list : List Char) : Option Settings :=
  let on := list.takeWhile (· != '-')
  let off := list.dropWhile (· != '-')
  let named := on ++ off.drop 1
  if off.length != 1 && named.all letters.contains && decide named.Nodup then
    some ((off.drop 1).foldl (set false) (on.foldl (set true) s))
  else none

/-- Drops blanks and comments in front. A comment goes from a hash sign to the end of the line. -/
def dropSpace (inComment : Bool) : List Char → List Char
  | [] => []
  | c :: cs =>
    if inComment then dropSpace (c != '\n') cs
    else if Text.isBlank c then dropSpace false cs
    else if c == '#' then dropSpace true cs
    else c :: cs

/-- Goes to the next character that means something. -/
def skip (s : Settings) (cs : List Char) : List Char :=
  if s.spaced then dropSpace false cs else cs

/-- The character that seems to come next. Only the start of a comment is passed over here, so it
can be one inside a comment. -/
def glance? (s : Settings) (cs : List Char) : Option Char :=
  if s.spaced then
    match cs.dropWhile Text.isBlank with
    | '#' :: comment => (comment.dropWhile Text.isBlank).head?
    | rest => rest.head?
  else cs.head?

end Settings

end Secd.Log.Pattern
