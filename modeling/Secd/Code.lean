import Secd.Effect

/-!
The code of a machine: a bounded sequence of words, filled before the run and fixed during it.
Unlike a stack, code may fill its capacity completely.
-/

namespace Secd

/-- At most `capacity` words. -/
structure Code where
  capacity : Nat
  words : Array Word
  deriving DecidableEq

namespace Code

/-- Code without words, if its room can be set aside. -/
def empty? (capacity : Nat) : Except Fault Code := do
  Segment.code.reserve capacity
  return { capacity, words := #[] }

/-- Code with the given words, if they fit and the room can be set aside. -/
def ofWords? (words : Array Word) (capacity : Nat) : Except Fault Code := do
  if capacity < words.size then
    throw (.exhausted .code capacity)
  Segment.code.reserve capacity
  return { capacity, words }

/-- The number of words. -/
def size (c : Code) : Nat := c.words.size

/-- No further word fits. -/
def isFull (c : Code) : Bool := decide (c.capacity ≤ c.size)

/-- The code with one more word at its end, whatever its capacity. -/
def append (c : Code) (word : Word) : Code := { c with words := c.words.push word }

/-- Adds a word at the end, if it fits. -/
def push (word : Word) : Effect Code Unit := fun c =>
  if c.isFull then .error (.exhausted .code c.capacity) c else .ok () (c.append word)

/-- The word at an address. -/
def fetch? (c : Code) (address : Nat) : Option Word := c.words[address]?

/-- A word as the address of a word of the code. -/
def address (c : Code) (target : Word) : Except Fault Nat :=
  match target.toIndex? with
  | some a => if a < c.size then .ok a else .error (.outOfCode target.toInt c.size)
  | none => .error (.outOfCode target.toInt c.size)

end Code

end Secd
