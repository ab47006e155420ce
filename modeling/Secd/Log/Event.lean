import Secd.Machine

/-!
The events of a run that can be logged. Each has a level, a target that names the part of the
program it comes from, a name, and fields with the details.

      DEBUG secd::vm::exec: run.trap pc=2 fault=invalid opcode 42 steps=1
      level target          name     fields
-/

namespace Secd.Log

/-- How important an event is, most important first. -/
inductive Level where
  | error | warn | info | debug | trace
  deriving DecidableEq

/-- The rank of a level; a greater rank is a finer detail. -/
def Level.rank : Level → Nat
  | error => 1
  | warn => 2
  | info => 3
  | debug => 4
  | trace => 5

/-- The name of a level in the log. -/
def Level.name : Level → String
  | error => "ERROR"
  | warn => "WARN"
  | info => "INFO"
  | debug => "DEBUG"
  | trace => "TRACE"

/-- Something worth logging. -/
inductive Event where
  /-- Input was left over when the code was full. -/
  | codeFull (capacity line : Nat)
  /-- The whole input was read. -/
  | codeLoaded (words lines : Nat)
  /-- A heap was set aside. -/
  | heapInit (capacity : Nat)
  /-- A run begins. -/
  | runStart (codeLength stackCapacity dumpCapacity heapCapacity : Nat)
  /-- An instruction was decoded; the heights are those before it takes effect. -/
  | step (pc : Nat) (op : Opcode) (stackHeight dumpHeight : Nat)
  /-- A run ended with a result. -/
  | runHalt (result : Value) (stats : Stats)
  /-- A run ended in a trap. -/
  | runTrap (trap : Trap) (steps : Nat)
  deriving DecidableEq

namespace Event

/-- The level of an event. -/
def level : Event → Level
  | codeFull _ _ => .warn
  | codeLoaded _ _ | runStart _ _ _ _ | runHalt _ _ | runTrap _ _ => .debug
  | heapInit _ | step _ _ _ _ => .trace

/-- The part of the program that an event comes from. -/
def target : Event → String
  | codeFull _ _ | codeLoaded _ _ => "secd::vm::loader"
  | heapInit _ => "secd::vm::heap"
  | runStart _ _ _ _ | step _ _ _ _ | runHalt _ _ | runTrap _ _ => "secd::vm::exec"

/-- The name of an event. -/
def message : Event → String
  | codeFull _ _ => "code segment full, ignoring remaining input"
  | codeLoaded _ _ => "bytecode loaded"
  | heapInit _ => "heap.init"
  | runStart _ _ _ _ => "run.start"
  | step _ _ _ _ => "step"
  | runHalt _ _ => "run.halt"
  | runTrap _ _ => "run.trap"

/-- The details of an event: fields with a name and a value, in the order in which they appear. -/
def fields : Event → List (String × String)
  | codeFull capacity line => [("capacity", toString capacity), ("line", toString line)]
  | codeLoaded words lines => [("words", toString words), ("lines", toString lines)]
  | heapInit capacity => [("capacity", toString capacity)]
  | runStart length stack dump heap =>
    [("code_len", toString length), ("stack_cap", toString stack), ("dump_cap", toString dump),
     ("heap_cap", toString heap)]
  | step pc op stack dump =>
    [("pc", toString pc), ("op", s!"\"{op.mnemonic}\""), ("sp", toString stack),
     ("dp", toString dump)]
  | runHalt result stats => ("result", result.render) :: stats.fields
  | runTrap trap steps =>
    [("pc", toString trap.pc), ("fault", trap.fault.message), ("steps", toString steps)]

/-- The name of the field that stands for the event's own name; every event has it. -/
def messageField : String := "message"

/-- The event has a field of the given name. -/
def hasField (e : Event) (name : String) : Bool :=
  name == messageField || e.fields.any fun (known, _) => known == name

/-- The line of an event in the log. -/
def render (e : Event) : String :=
  s!"{e.level.name} {e.target}: {e.message} {Text.assignments e.fields}"

end Event

end Secd.Log
