import Secd.Fault

/-!
An `Effect` works on a part of the machine and may end in a fault. What it did before the fault
stays done: an instruction that fails halfway has already popped, fetched or pushed what came before
the failing check, and the state it leaves behind is part of its meaning. So an effect gives back a
state in either case.
-/

namespace Secd

/-- An operation on a state `σ` that keeps what it did before a fault. -/
abbrev Effect (σ α : Type) := EStateM Fault σ α

namespace Effect

variable {σ α : Type}

/-- Changes nothing and ends as a computation did. -/
@[inline] def check (outcome : Except Fault α) : Effect σ α := fun s =>
  match outcome with
  | .ok a => .ok a s
  | .error fault => .error fault s

end Effect

end Secd
