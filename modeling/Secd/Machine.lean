import Secd.Capacities
import Secd.Code
import Secd.Heap.Chain
import Secd.Stack
import Secd.Text.Lines

/-!
The state of a machine: an operand stack (S), an environment (E), a program counter into the code
(C) and a dump (D), over a heap. The code itself is no part of the state. It never changes, so
every operation takes it as a parameter.
-/

namespace Secd

/-- The state of a machine between two instructions. -/
structure Machine where
  pc : Nat
  env : Env
  stack : Stack Value
  dump : Stack Frame
  heap : Heap
  steps : Nat
  deriving DecidableEq

/-- What a run has used so far. -/
structure Stats where
  steps : Nat
  peakStack : Nat
  peakDump : Nat
  heapCells : Nat
  deriving DecidableEq

/-- The statistics as fields with a name and a value. -/
def Stats.fields (s : Stats) : List (String × String) :=
  [("steps", toString s.steps), ("peak_stack", toString s.peakStack),
   ("peak_dump", toString s.peakDump), ("heap_cells", toString s.heapCells)]

/-- The statistics on one line. -/
def Stats.render (s : Stats) : String := Text.assignments s.fields

namespace Machine

/-- A machine before its first instruction, if its stores can be set aside. -/
def init? (caps : Capacities) : Except Fault Machine := do
  let stack ← Stack.empty? .stack caps.stack
  let dump ← Stack.empty? .dump caps.dump
  let heap ← Heap.empty? caps.heap
  return { pc := 0, env := none, stack, dump, heap, steps := 0 }

/-- Code with the given words and a machine to run it, if both can be set up. -/
def load? (words : Array Word) (caps : Capacities) : Except Fault (Code × Machine) := do
  let code ← Code.ofWords? words caps.code
  let machine ← init? caps
  return (code, machine)

/-- What the machine has used so far. -/
def stats (m : Machine) : Stats where
  steps := m.steps
  peakStack := m.stack.peak
  peakDump := m.dump.peak
  heapCells := m.heap.size

end Machine

end Secd
