import Secd.Machine.Potential

/-!
Whole runs: steps until HALT or a trap. `run` is defined by recursion on the potential of the
machine, so that it ends is part of its definition. The log of a run is computed beside it, from the
events that the same steps give; nothing in `run` depends on it.
-/

namespace Secd.Machine

/-- Runs until HALT, whose value is the result, or until a trap. -/
def run (code : Code) (m : Machine) : EStateM.Result Trap Machine Value :=
  match _h : step code m with
  | .ok (some value) m' => .ok value m'
  | .ok none m' => run code m'
  | .error trap m' => .error trap m'
termination_by potential code m
decreasing_by exact potential_lt_of_step ‹_›

/-- A run is one step and then the rest of the run. -/
theorem run_eq (code : Code) (m : Machine) :
    run code m = match step code m with
      | .ok (some value) m' => .ok value m'
      | .ok none m' => run code m'
      | .error trap m' => .error trap m' := by
  rw [run]
  split <;> simp_all

/-- The outcome of a program in a fresh machine; without room for one, a trap at address 0. -/
def execute (words : Array Word) (caps : Capacities) : Except Trap Value :=
  match load? words caps with
  | .error fault => .error ⟨0, fault⟩
  | .ok (code, m) =>
    match run code m with
    | .ok value _ => .ok value
    | .error trap _ => .error trap

/-! ### The log of a run -/

open Log (Event)

/-- The event with which a run begins. -/
def startEvent (code : Code) (m : Machine) : Event :=
  .runStart code.size m.stack.capacity m.dump.capacity m.heap.capacity

/-- Adds those events to a log that are to be shown. -/
def record (shown : Event → Bool) (log : Array Event) (events : List Event) : Array Event :=
  log ++ events.filter shown

/-- Adds the events of the steps to come, and of the end, to a log. -/
def logSteps (shown : Event → Bool) (code : Code) (m : Machine) (log : Array Event) :
    Array Event :=
  match h : observe code m with
  | (event, .ok (some value) m') => record shown log (event.toList ++ [.runHalt value m'.stats])
  | (event, .ok none m') => logSteps shown code m' (record shown log event.toList)
  | (event, .error trap m') => record shown log (event.toList ++ [.runTrap trap m'.steps])
termination_by potential code m
decreasing_by exact potential_lt_of_step (congrArg Prod.snd h)

/-- Those events of a run that are to be shown, in order. -/
def runLog (shown : Event → Bool) (code : Code) (m : Machine) : List Event :=
  (logSteps shown code m (record shown #[] [startEvent code m])).toList

end Secd.Machine
