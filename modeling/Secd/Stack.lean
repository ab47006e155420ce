import Secd.Effect

/-!
Bounded stacks: the operand stack and the dump. A stack of capacity `c` holds fewer than `c` items,
so a stack of capacity 0 or 1 holds none. It also remembers the greatest height it has had.

A typed pop takes the topmost item off before it looks at its kind, so an item of the wrong kind is
gone as well.
-/

namespace Secd

/-- A stack with a bound, bottom item first. -/
structure Stack (α : Type) where
  segment : Segment
  capacity : Nat
  items : Array α
  peak : Nat
  deriving DecidableEq

namespace Stack

variable {α : Type}

/-- An empty stack, if its room can be set aside. -/
def empty? (segment : Segment) (capacity : Nat) : Except Fault (Stack α) := do
  segment.reserve capacity
  return { segment, capacity, items := #[], peak := 0 }

/-- The number of items. -/
def height (s : Stack α) : Nat := s.items.size

/-- The topmost item. -/
def top? (s : Stack α) : Option α := s.items.back?

/-- Puts an item on top, if the stack stays below its capacity. -/
def push (a : α) : Effect (Stack α) Unit
  | ⟨segment, capacity, items, peak⟩ =>
    if items.size + 1 < capacity then
      .ok () ⟨segment, capacity, items.push a, max peak (items.size + 1)⟩
    else
      .error (.exhausted segment capacity) ⟨segment, capacity, items, peak⟩

/-- Takes the topmost item off. -/
def pop : Effect (Stack α) α := fun s =>
  match s.top? with
  | some a => .ok a { s with items := s.items.pop }
  | none => .error (.underflow s.segment) s

/-! ### Typed pops -/

/-- Takes the topmost value off, which has to be an integer. -/
def popInt : Effect (Stack Value) Word := do
  match ← pop with
  | .int n => return n
  | .closure _ => throw (.valueKind .integer .closure)

/-- Takes the topmost value off, which has to be a closure. -/
def popClosure : Effect (Stack Value) CellId := do
  match ← pop with
  | .closure cell => return cell
  | .int _ => throw (.valueKind .closure .integer)

/-- Takes the topmost frame off, which has to be of a branch. -/
def popBranch : Effect (Stack Frame) Nat := do
  match ← pop with
  | .branch resume => return resume
  | .call _ _ => throw (.frameKind .branch .call)

/-- Takes the topmost frame off, which has to be of a call. -/
def popCall : Effect (Stack Frame) (Nat × Env) := do
  match ← pop with
  | .call resume env => return (resume, env)
  | .branch _ => throw (.frameKind .call .branch)

end Stack

end Secd
