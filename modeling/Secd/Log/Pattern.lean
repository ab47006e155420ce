import Secd.Log.Pattern.Class
import Secd.Text.Alphanumeric

/-!
What a filter accepts as the value of a field: a number, or a pattern that the value has to match.
Nothing is ever matched here. All that matters is whether the text can be read as a pattern, for a
filter with one that cannot is no filter.

      (LDC|POP)+      a group, repeated
      [a-z][^0-9]*    classes of characters
      *LDC            nothing to repeat
      (LDC            a group that is not closed

A pattern is read from left to right. What is known at each place is the settings, the parts of the
sequence that is being read, the alternatives before it, and the same for each group around it. A
part is known by its depth alone, because there is a limit on how deep a pattern may nest.

A repetition with a count has braces, and the text of a field ends at the closing brace; so there
are none of these.
-/

namespace Secd.Log.Pattern

/-! ### Numbers -/

/-- The rest of a number is the end, or an exponent. -/
def isExponent : List Char → Bool
  | [] => true
  | mark :: cs =>
    let digits := match cs with
      | '+' :: rest | '-' :: rest => rest
      | rest => rest
    (mark == 'e' || mark == 'E') && !digits.isEmpty && digits.all Char.isDigit

/-- The text is a number without a sign: digits, perhaps with a point and an exponent, or a word. -/
def isNumber (cs : List Char) : Bool :=
  if ["INF", "INFINITY", "NAN"].any fun word => Text.upper cs == word.toList then true
  else
    let whole := cs.takeWhile Char.isDigit
    match cs.dropWhile Char.isDigit with
    | '.' :: rest =>
      !(whole ++ rest.takeWhile Char.isDigit).isEmpty && isExponent (rest.dropWhile Char.isDigit)
    | rest => !whole.isEmpty && isExponent rest

/-! ### Groups -/

/-- What stands behind an opening parenthesis. -/
inductive Opening where
  /-- A group, perhaps with a name, and the settings inside. -/
  | group (name : Option (List Char)) (inside : Settings)
  /-- Settings for the rest of the group around. -/
  | settings (rest : Settings)
  deriving DecidableEq

/-- The text is a name for a group. -/
def isGroupName : List Char → Bool
  | [] => false
  | c :: cs =>
    (c == '_' || Text.isAlphabetic c) &&
      cs.all fun c => c == '_' || c == '.' || c == '[' || c == ']' || Text.isAlphanumeric c

/-- Reads the name of a group, up to the closing angle bracket. -/
def groupName? (cs : List Char) : Option (List Char × List Char) :=
  let name := cs.takeWhile (· != '>')
  match cs.dropWhile (· != '>') with
  | _ :: rest => if isGroupName name then some (name, rest) else none
  | [] => none

/-- Reads what follows an opening parenthesis. -/
def opening? (s : Settings) (cs : List Char) : Option (Opening × List Char) :=
  match s.skip cs with
  | '?' :: 'P' :: '<' :: cs | '?' :: '<' :: cs =>
    (groupName? cs).map fun (name, rest) => (.group (some name) s, rest)
  | '?' :: cs => do
    let isEnd (c : Char) : Bool := c == ':' || c == ')'
    let letters := cs.takeWhile fun c => !isEnd c
    let changed ← s.change? letters
    match cs.dropWhile fun c => !isEnd c with
    | ':' :: rest => some (.group none changed, rest)
    | ')' :: rest => if letters.isEmpty then none else some (.settings changed, rest)
    | _ => none
  | cs => some (.group none s, cs)

/-! ### Whole patterns -/

/-- A part of a sequence. -/
structure Part where
  depth : Nat := 0
  /-- A repetition can follow; not so behind settings, which match nothing. -/
  repeatable : Bool := true
  deriving DecidableEq

/-- What has been read of a group, or of the whole pattern: its alternatives, by their depths, and
the parts of the last of them, in reverse. -/
structure Open where
  settings : Settings := {}
  alternatives : List Nat := []
  parts : List Part := []
  deriving DecidableEq

namespace Open

/-- The group with a further part. -/
def add (o : Open) (part : Part) : Open := { o with parts := part :: o.parts }

/-- The group with a further symbol, if it can be used. -/
def addSymbol? (o : Open) (symbol : Symbol) : Option Open :=
  if symbol.isUsable o.settings then some (o.add {}) else none

/-- The depths of all alternatives, the last included. -/
def allAlternatives (o : Open) : List Nat := listDepth (o.parts.map (·.depth)) :: o.alternatives

/-- The group at the start of its next alternative. -/
def nextAlternative (o : Open) : Open := { o with alternatives := o.allAlternatives, parts := [] }

/-- The depth of what has been read. -/
def depth (o : Open) : Nat := listDepth o.allAlternatives

/-- The group with its last part repeated. -/
def repeatLast? (o : Open) : Option Open :=
  match o.parts with
  | last :: parts =>
    if last.repeatable then some { o with parts := { depth := last.depth + 1 } :: parts } else none
  | [] => none

end Open

/-- A place in a pattern: the innermost open group, those around it, and the names so far. -/
structure Place where
  inner : Open := {}
  outer : List Open := []
  names : List (List Char) := []
  deriving DecidableEq

namespace Place

/-- The place behind an opening parenthesis; no two groups have the same name. -/
def enter? (p : Place) : Opening → Option Place
  | .settings rest => some { p with inner := { p.inner with settings := rest }.add ⟨0, false⟩ }
  | .group name inside =>
    if name.any p.names.contains then none
    else some ⟨{ settings := inside }, p.inner :: p.outer, name.toList ++ p.names⟩

/-- The place behind a closing parenthesis. -/
def leave? (p : Place) : Option Place :=
  match p.outer with
  | [] => none
  | around :: outer => some { p with inner := around.add { depth := p.inner.depth + 1 }, outer }

/-- The place with another innermost group. -/
def withInner (p : Place) (inner : Open) : Place := { p with inner }

/-- Reads one part of a pattern, whose first character is given. -/
def step? (p : Place) (c : Char) (rest : List Char) : Option (Place × List Char) := do
  let o := p.inner
  match c with
  | '|' => return (p.withInner o.nextAlternative, rest)
  | ')' => return (← p.leave?, rest)
  | '(' =>
    let (opening, rest) ← opening? o.settings rest
    return (← p.enter? opening, rest)
  | '[' =>
    let (depth, rest) ← CharClass.read? o.settings rest
    return (p.withInner (o.add { depth }), rest)
  | '*' | '+' | '?' =>
    return (p.withInner (← o.repeatLast?), if rest.head? == some '?' then rest.drop 1 else rest)
  | '\x7b' => none
  | '\\' =>
    let (symbol, rest) ← Symbol.escape? o.settings rest
    return (p.withInner (← o.addSymbol? symbol), rest)
  | '^' | '$' => return (p.withInner (← o.addSymbol? (.place false)), rest)
  | '.' => if o.settings.unicode then return (p.withInner (o.add {}), rest) else none
  | c => return (p.withInner (← o.addSymbol? (.char c false)), rest)

/-- Reads the rest of a pattern, and gives its depth. -/
def finish? (fuel : Nat) (p : Place) (cs : List Char) : Option Nat :=
  match fuel with
  | 0 => none
  | fuel + 1 =>
    match p.inner.settings.skip cs with
    | [] => if p.outer.isEmpty then some p.inner.depth else none
    | c :: rest => do
      let (p, rest) ← p.step? c rest
      p.finish? fuel rest

end Place

/-- How deep a pattern may nest. -/
def maxDepth : Nat := 250

/-- The text is a pattern. Each step reads a character or more, so the fuel lasts. -/
def isPattern (cs : List Char) : Bool :=
  (Place.finish? (cs.length + 1) {} cs).any fun depth => decide (depth ≤ maxDepth)

/-- The text can be the value of a field. A number with a minus sign is a pattern already. -/
def isFieldValue (cs : List Char) : Bool :=
  match cs with
  | '+' :: number => isNumber number
  | _ => isPattern cs

end Secd.Log.Pattern
