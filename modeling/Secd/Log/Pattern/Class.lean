import Secd.Log.Pattern.Symbol

/-!
Classes of characters in brackets. A class has members, ranges of members, classes with a name and
further classes, and can be joined to another by a sign written twice.

      [a-z_]   [^0-9]   [[:alpha:]-]   [a-z&&[^aeiou]]   []]

Classes nest, and there is a limit on that. The depth of a class is counted as if it were drawn as a
tree: a bracket is a node, so is a list of two or more parts, and so is each sign that joins.
-/

namespace Secd.Log.Pattern

/-- The depth of a list of parts with the given depths. A single part is not a list. -/
def listDepth : List Nat → Nat
  | [] => 0
  | [depth] => depth
  | depths => depths.foldl max 0 + 1

namespace CharClass

/-- What has been read between two brackets. -/
structure Level where
  /-- The depth of what stands before the last sign that joins. -/
  joined : Option Nat := none
  /-- The depths of the parts since then. -/
  parts : List Nat := []
  deriving DecidableEq

namespace Level

/-- The level with a further part. -/
def add (level : Level) (depth : Nat) : Level := { level with parts := depth :: level.parts }

/-- The depth of all that has been read. -/
def depth (level : Level) : Nat :=
  match level.joined with
  | none => listDepth level.parts
  | some before => max before (listDepth level.parts) + 1

/-- The level behind a sign that joins. -/
def join (level : Level) : Level := { joined := some level.depth }

end Level

/-- The names of classes. -/
def names : List String :=
  ["alnum", "alpha", "ascii", "blank", "cntrl", "digit", "graph", "lower", "print", "punct",
   "space", "upper", "word", "xdigit"]

/-- Reads a class with a name from behind its bracket, and whether it is negated. -/
def named? : List Char → Option (Bool × List Char)
  | ':' :: cs =>
    let negated := cs.head? == some '^'
    let cs := if negated then cs.drop 1 else cs
    match cs.dropWhile (· != ':') with
    | ':' :: ']' :: rest =>
      if names.contains (String.ofList (cs.takeWhile (· != ':'))) then some (negated, rest)
      else none
    | _ => none
  | _ => none

/-- A class with a name can be used with the settings. -/
def isUsableName (s : Settings) (negated : Bool) : Bool :=
  if s.unicode then !s.ignoreCase else !negated

/-- Reads dashes, which are members at the start of a class. -/
def dashes (s : Settings) (level : Level) : Nat → List Char → Level × List Char
  | fuel + 1, '-' :: cs => dashes s (level.add 0) fuel (s.skip cs)
  | _, cs => (level, cs)

/-- Reads the start of a class, where a closing bracket and dashes are members. A class of bytes
cannot be negated. -/
def enter? (s : Settings) (cs : List Char) : Option (Level × List Char) :=
  let cs := s.skip cs
  let negated := cs.head? == some '^'
  let cs := if negated then s.skip (cs.drop 1) else cs
  let (level, cs) := match cs with
    | ']' :: rest => (Level.add {} 0, s.skip rest)
    | _ => dashes s {} cs.length cs
  if negated && !s.unicode || !level.parts.isEmpty && !(Symbol.char '-' false).isMember s then none
  else some (level, cs)

/-- Reads a member that is not a class. -/
def member? (s : Settings) : List Char → Option (Symbol × List Char)
  | [] => none
  | '\\' :: cs => (Symbol.escape? s cs).filter fun (symbol, _) => symbol.isMember s
  | c :: cs => some (Symbol.char c false, cs) |>.filter fun (symbol, _) => symbol.isMember s

/-- Reads a member, or a range of members whose ends are characters in order. -/
def range? (s : Settings) (cs : List Char) : Option (List Char) := do
  let (first, rest) ← member? s cs
  match s.skip rest with
  | '-' :: rest' =>
    let next := s.glance? rest'
    if next == some ']' || next == some '-' then some ('-' :: rest')
    else match first, ← member? s (s.skip rest') with
      | .char lo _, (.char hi _, rest) => if lo ≤ hi then some rest else none
      | _, _ => none
  | rest => some rest

/-- Reads the rest of a class that stands in other classes, and gives its depth. -/
def leave? (s : Settings) (fuel : Nat) (level : Level) (outer : List Level) (cs : List Char) :
    Option (Nat × List Char) :=
  match fuel with
  | 0 => none
  | fuel + 1 =>
    match s.skip cs with
    | [] => none
    | '[' :: rest =>
      match named? rest with
      | some (negated, rest) =>
        if isUsableName s negated then leave? s fuel (level.add 0) outer rest else none
      | none => do
        let (inner, rest) ← enter? s rest
        leave? s fuel inner (level :: outer) rest
    | ']' :: rest =>
      match outer with
      | [] => some (level.depth + 1, rest)
      | around :: outer => leave? s fuel (around.add (level.depth + 1)) outer rest
    | '&' :: '&' :: rest | '-' :: '-' :: rest | '~' :: '~' :: rest =>
      leave? s fuel level.join outer rest
    | cs => do leave? s fuel (level.add 0) outer (← range? s cs)

/-- Reads a class from behind its bracket, and gives its depth. Each step reads a character or more,
so the fuel lasts. -/
def read? (s : Settings) (cs : List Char) : Option (Nat × List Char) := do
  let (level, rest) ← enter? s cs
  leave? s (rest.length + 1) level [] rest

end CharClass

end Secd.Log.Pattern
