import Secd.Effect

/-!
The heap: an arena of cells that only grows. A cell is written when it is allocated and never again,
except that a pending cell turns into a binding once its value is known.

    allocate    uses the next free cell
    extend      a binding in front of an environment
    capture     a closure over an environment
    reserve     a pending cell in front of an environment
    tie         fills a pending cell with a closure
    captureRec  reserve, capture over the reserved cell, tie: a closure that can see itself
-/

namespace Secd

/-- An arena of at most `capacity` cells. -/
structure Heap where
  capacity : Nat
  cells : Array Cell
  deriving DecidableEq

namespace Heap

/-- A heap without cells, if its room can be set aside. -/
def empty? (capacity : Nat) : Except Fault Heap := do
  Segment.heap.reserve capacity
  return { capacity, cells := #[] }

/-- The number of cells in use. -/
def size (h : Heap) : Nat := h.cells.size

/-- The number of cells still free. -/
def remaining (h : Heap) : Nat := h.capacity - h.size

/-- Writes the next free cell and names it. -/
def allocate (cell : Cell) : Effect Heap CellId
  | ⟨capacity, cells⟩ =>
    if cells.size < capacity then
      .ok cells.size ⟨capacity, cells.push cell⟩
    else
      .error (.exhausted .heap capacity) ⟨capacity, cells⟩

/-- The environment with one more binding, in front of the others. -/
def extend (value : Value) (env : Env) : Effect Heap Env := do
  return some (← allocate (.binding value env))

/-- A closure of the code at `entry` over an environment. -/
def capture (entry : Nat) (env : Env) : Effect Heap CellId :=
  allocate (.closure ⟨entry, env⟩)

/-- A pending cell in front of an environment. -/
def reserve (env : Env) : Effect Heap CellId :=
  allocate (.pending env)

/-- Makes a pending cell a binding to a closure; the result is the environment that starts there. -/
def tie (slot closure : CellId) : Effect Heap Env
  | ⟨capacity, cells⟩ =>
    match cells[slot]? with
    | some (.pending tail) =>
      .ok (some slot) ⟨capacity, cells.setIfInBounds slot (.binding (.closure closure) tail)⟩
    | some cell => .error (.cellKind slot .pending cell.kind) ⟨capacity, cells⟩
    | none => .error (.dangling slot) ⟨capacity, cells⟩

/-- A closure whose environment starts with a binding to the closure itself. -/
def captureRec (entry : Nat) (env : Env) : Effect Heap CellId := do
  let slot ← reserve env
  let closure ← capture entry (some slot)
  let _ ← tie slot closure
  return closure

/-- The closure that a cell holds. -/
def closure (h : Heap) (cell : CellId) : Except Fault Closure :=
  match h.cells[cell]? with
  | some (.closure c) => .ok c
  | some other => .error (.cellKind cell .closure other.kind)
  | none => .error (.dangling cell)

end Heap

end Secd
