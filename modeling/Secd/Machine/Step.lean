import Secd.Log.Event

/-!
One instruction. `step` fetches and decodes the word at the program counter and executes it; the
result is the value on HALT and nothing otherwise.

The order of the parts of an instruction is its meaning as much as their sum is, because a fault
keeps what was done before it. SEL, for one, pops the condition, fetches both targets, pushes its
frame, and only then looks whether the chosen target lies in the code.
-/

namespace Secd.Machine

open Effect (check)

variable {α : Type}

/-! ### Effects on the parts of a machine -/

/-- An effect on the operand stack. -/
@[inline] def onStack (effect : Effect (Stack Value) α) : Effect Machine α
  | ⟨pc, env, stack, dump, heap, steps⟩ =>
    match effect stack with
    | .ok a stack => .ok a ⟨pc, env, stack, dump, heap, steps⟩
    | .error fault stack => .error fault ⟨pc, env, stack, dump, heap, steps⟩

/-- An effect on the dump. -/
@[inline] def onDump (effect : Effect (Stack Frame) α) : Effect Machine α
  | ⟨pc, env, stack, dump, heap, steps⟩ =>
    match effect dump with
    | .ok a dump => .ok a ⟨pc, env, stack, dump, heap, steps⟩
    | .error fault dump => .error fault ⟨pc, env, stack, dump, heap, steps⟩

/-- An effect on the heap. -/
@[inline] def onHeap (effect : Effect Heap α) : Effect Machine α
  | ⟨pc, env, stack, dump, heap, steps⟩ =>
    match effect heap with
    | .ok a heap => .ok a ⟨pc, env, stack, dump, heap, steps⟩
    | .error fault heap => .error fault ⟨pc, env, stack, dump, heap, steps⟩

/-- Takes the word at the program counter and moves past it. -/
def fetch (code : Code) : Effect Machine Word := do
  let m ← get
  match code.fetch? m.pc with
  | some word =>
    set { m with pc := m.pc + 1 }
    return word
  | none => throw (.outOfCode m.pc code.size)

/-- Goes on at another address. -/
@[inline] def jump (pc : Nat) : Effect Machine Unit := modify fun m => { m with pc }

/-- Goes on in another environment. -/
@[inline] def enter (env : Env) : Effect Machine Unit := modify fun m => { m with env }

/-! ### The instructions -/

/-- Takes the opcode at the program counter; from here on the instruction counts as a step. -/
def decode (code : Code) : Effect Machine Opcode := do
  let word ← fetch code
  match Opcode.ofWord? word with
  | none => throw (.badOpcode word)
  | some op =>
    modify fun m => { m with steps := m.steps + 1 }
    return op

/-- Replaces the two topmost integers, `x` below `y`, by one. -/
def arith (combine : Word → Word → Word) : Effect Machine Unit := do
  let y ← onStack Stack.popInt
  let x ← onStack Stack.popInt
  onStack (Stack.push (.int (combine x y)))

/-- Pushes the binding of the environment that the operand counts to. -/
def loadBinding (code : Code) : Effect Machine Unit := do
  let operand ← fetch code
  match operand.toIndex? with
  | none => throw (.badOperand .ld operand)
  | some index =>
    let m ← get
    let value ← check (m.heap.lookup index m.env)
    onStack (Stack.push value)

/-- Branches on the topmost integer; the frame resumes past both targets. -/
def select (code : Code) : Effect Machine Unit := do
  let condition ← onStack Stack.popInt
  let onZero ← fetch code
  let onNonzero ← fetch code
  let m ← get
  onDump (Stack.push (.branch m.pc))
  jump (← check (code.address (if condition = 0 then onZero else onNonzero)))

/-- Pushes a closure of the code at the operand, made by `capture` over the environment. -/
def loadClosure (code : Code) (capture : Nat → Env → Effect Heap CellId) : Effect Machine Unit := do
  let operand ← fetch code
  let entry ← check (code.address operand)
  let m ← get
  let cell ← onHeap (capture entry m.env)
  onStack (Stack.push (.closure cell))

/-- Applies the closure below the topmost value to that value. -/
def apply : Effect Machine Unit := do
  let argument ← onStack Stack.pop
  let cell ← onStack Stack.popClosure
  let m ← get
  let closure ← check (m.heap.closure cell)
  onDump (Stack.push (.call m.pc m.env))
  enter (← onHeap (Heap.extend argument closure.env))
  jump closure.entry

/-- Returns from a closure to where it was applied. -/
def ret : Effect Machine Unit := do
  let (resume, env) ← onDump Stack.popCall
  jump resume
  enter env

/-- Executes a decoded instruction; HALT has a result. -/
def exec (code : Code) : Opcode → Effect Machine (Option Value)
  | .halt => do return some (← onStack Stack.pop)
  | .ldc => do onStack (Stack.push (.int (← fetch code))); return none
  | .ld => do loadBinding code; return none
  | .add => do arith (· + ·); return none
  | .sub => do arith (· - ·); return none
  | .mul => do arith (· * ·); return none
  | .sel => do select code; return none
  | .ldf => do loadClosure code Heap.capture; return none
  | .ldrf => do loadClosure code Heap.captureRec; return none
  | .ap => do apply; return none
  | .rtn => do ret; return none
  | .join => do jump (← onDump Stack.popBranch); return none

/-- A fault is reported with the address at which its instruction began. -/
def located (pc : Nat) :
    EStateM.Result Fault Machine α → EStateM.Result Trap Machine α
  | .ok result m => .ok result m
  | .error fault m => .error ⟨pc, fault⟩ m

/-- One instruction, and the event that it gives as soon as it is decoded. -/
@[inline] def observe (code : Code) (m : Machine) :
    Option Log.Event × EStateM.Result Trap Machine (Option Value) :=
  let pc := m.pc
  match decode code m with
  | .ok op m => (some (.step pc op m.stack.height m.dump.height), located pc (exec code op m))
  | .error fault m => (none, .error ⟨pc, fault⟩ m)

/-- One instruction. -/
def step (code : Code) : EStateM Trap Machine (Option Value) := fun m => (observe code m).2

end Secd.Machine
