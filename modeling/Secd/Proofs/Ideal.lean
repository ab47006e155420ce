import Secd.Proofs.Denotation

/-!
A machine without a heap. Environments are lists, closures carry the list they captured, and a
recursive closure is a value of its own that unfolds when it is applied:

      plain p list      applied to v  runs p in  v :: list
      recursive p list  applied to v  runs p in  v :: recursive p list :: list

Code, operand stack and dump are as bounded as ever, and the parts of an instruction come in the
same order, so that two machines can be compared fault by fault. Only the heap and what can go wrong
with it is gone.
-/

namespace Secd

/-- A frame that saves a list in place of a handle. -/
inductive Ideal.Frame where
  | branch (resume : Nat)
  | call (resume : Nat) (env : List (Datum Nat))

/-- The state of a machine without a heap. -/
structure Ideal where
  pc : Nat
  env : List (Datum Nat)
  stack : Stack (Datum Nat)
  dump : Stack Ideal.Frame
  steps : Nat

namespace Ideal

variable {α : Type}

/-- The machine that a run starts from. -/
def fresh (caps : Capacities) : Ideal where
  pc := 0
  env := []
  stack := ⟨.stack, caps.stack, #[], 0⟩
  dump := ⟨.dump, caps.dump, #[], 0⟩
  steps := 0

/-! ### The parts of an instruction -/

/-- An effect on the operand stack. -/
def onStack (effect : Effect (Stack (Datum Nat)) α) : Effect Ideal α := fun m =>
  match effect m.stack with
  | .ok a stack => .ok a { m with stack }
  | .error fault stack => .error fault { m with stack }

/-- An effect on the dump. -/
def onDump (effect : Effect (Stack Frame) α) : Effect Ideal α := fun m =>
  match effect m.dump with
  | .ok a dump => .ok a { m with dump }
  | .error fault dump => .error fault { m with dump }

/-- Takes the topmost value off, which has to be an integer. -/
def popInt : Effect (Stack (Datum Nat)) Word := do
  match ← Stack.pop with
  | .int n => return n
  | _ => throw (.valueKind .integer .closure)

/-- Takes the topmost value off, which has to be a closure; gives its code and what the code sees
behind its argument. -/
def popClosure : Effect (Stack (Datum Nat)) (Nat × List (Datum Nat)) := do
  match (← Stack.pop).applied? with
  | some closure => return closure
  | none => throw (.valueKind .closure .integer)

/-- Takes the topmost frame off, which has to be of a branch. -/
def popBranch : Effect (Stack Frame) Nat := do
  match ← Stack.pop with
  | .branch resume => return resume
  | .call _ _ => throw (.frameKind .branch .call)

/-- Takes the topmost frame off, which has to be of a call. -/
def popCall : Effect (Stack Frame) (Nat × List (Datum Nat)) := do
  match ← Stack.pop with
  | .call resume env => return (resume, env)
  | .branch _ => throw (.frameKind .call .branch)

/-- Takes the word at the program counter and moves past it. -/
def fetch (code : Code) : Effect Ideal Word := do
  let m ← get
  match code.fetch? m.pc with
  | some word =>
    set { m with pc := m.pc + 1 }
    return word
  | none => throw (.outOfCode m.pc code.size)

/-- Goes on at another address. -/
def jump (pc : Nat) : Effect Ideal Unit := modify fun m => { m with pc }

/-- Goes on in another environment. -/
def enter (env : List (Datum Nat)) : Effect Ideal Unit := modify fun m => { m with env }

/-! ### The instructions -/

/-- Takes the opcode at the program counter; from here on the instruction counts as a step. -/
def decode (code : Code) : Effect Ideal Opcode := do
  let word ← fetch code
  match Opcode.ofWord? word with
  | none => throw (.badOpcode word)
  | some op =>
    modify fun m => { m with steps := m.steps + 1 }
    return op

/-- Replaces the two topmost integers, `x` below `y`, by one. -/
def arith (combine : Word → Word → Word) : Effect Ideal Unit := do
  let y ← onStack popInt
  let x ← onStack popInt
  onStack (Stack.push (.int (combine x y)))

/-- Pushes the element of the environment that the operand counts to. -/
def loadBinding (code : Code) : Effect Ideal Unit := do
  let operand ← fetch code
  match operand.toIndex? with
  | none => throw (.badOperand .ld operand)
  | some index =>
    let m ← get
    match m.env[index]? with
    | some datum => onStack (Stack.push datum)
    | none => throw (.unbound index m.env.length)

/-- Branches on the topmost integer; the frame resumes past both targets. -/
def select (code : Code) : Effect Ideal Unit := do
  let condition ← onStack popInt
  let onZero ← fetch code
  let onNonzero ← fetch code
  let m ← get
  onDump (Stack.push (.branch m.pc))
  jump (← Effect.check (code.address (if condition = 0 then onZero else onNonzero)))

/-- Pushes a closure of the code at the operand over the environment. -/
def loadClosure (code : Code) (make : Nat → List (Datum Nat) → Datum Nat) :
    Effect Ideal Unit := do
  let operand ← fetch code
  let entry ← Effect.check (code.address operand)
  let m ← get
  onStack (Stack.push (make entry m.env))

/-- Applies the closure below the topmost value to that value. -/
def apply : Effect Ideal Unit := do
  let argument ← onStack Stack.pop
  let (entry, env) ← onStack popClosure
  let m ← get
  onDump (Stack.push (.call m.pc m.env))
  enter (argument :: env)
  jump entry

/-- Returns from a closure to where it was applied. -/
def ret : Effect Ideal Unit := do
  let (resume, env) ← onDump popCall
  jump resume
  enter env

/-- Executes a decoded instruction; HALT has a result. -/
def exec (code : Code) : Opcode → Effect Ideal (Option (Datum Nat))
  | .halt => do return some (← onStack Stack.pop)
  | .ldc => do onStack (Stack.push (.int (← fetch code))); return none
  | .ld => do loadBinding code; return none
  | .add => do arith (· + ·); return none
  | .sub => do arith (· - ·); return none
  | .mul => do arith (· * ·); return none
  | .sel => do select code; return none
  | .ldf => do loadClosure code .plain; return none
  | .ldrf => do loadClosure code .recursive; return none
  | .ap => do apply; return none
  | .rtn => do ret; return none
  | .join => do jump (← onDump popBranch); return none

/-- One instruction; a fault is reported with the address at which the instruction began. -/
def step (code : Code) : EStateM Trap Ideal (Option (Datum Nat)) := fun m =>
  match (decode code >>= exec code) m with
  | .ok result m' => .ok result m'
  | .error fault m' => .error ⟨m.pc, fault⟩ m'

/-- Takes `k` steps, or fewer up to HALT or a trap. -/
def advance (code : Code) : Nat → EStateM Trap Ideal (Option (Datum Nat))
  | 0 => pure none
  | k + 1 => do
    match ← step code with
    | some value => return some value
    | none => advance code k

end Ideal

end Secd
