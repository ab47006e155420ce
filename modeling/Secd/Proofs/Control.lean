import Secd.Machine.Execution

/-!
Where an instruction that succeeds takes the machine. Control is the program counter, the
environment and the dump, and five kinds of instructions treat it differently:

      SEL     leaves a branch frame that resumes behind it, goes to one of its targets
      AP      leaves a call frame that resumes behind it in this environment, goes to the closure
      RTN     takes a call frame off, goes to where and into which environment it says
      JOIN    takes a branch frame off, goes to where it says, stays in the environment
      others  go on behind their operands, stay in the environment, leave the dump alone

Everything about jumps and returns is derived from these rules.
-/

namespace Secd

/-- The instruction leaves the dump alone. -/
def Opcode.isPlain : Opcode → Bool
  | .sel | .ap | .rtn | .join => false
  | _ => true

namespace Machine

/-- What an instruction that succeeds does to the control, by its opcode. -/
inductive Transfers (code : Code) (m m' : Machine) : Opcode → Prop where
  | onward {op : Opcode} (plain : op.isPlain = true) (pc : m'.pc = m.pc + 1 + op.operandCount)
      (env : m'.env = m.env) (dump : m'.dump = m.dump) : Transfers code m m' op
  | sel {n onZero onNonzero : Word} {rest : Array Value}
      (condition : m.stack.items = rest.push (.int n))
      (zero : code.fetch? (m.pc + 1) = some onZero)
      (nonzero : code.fetch? (m.pc + 2) = some onNonzero)
      (target : code.address (if n = 0 then onZero else onNonzero) = .ok m'.pc)
      (env : m'.env = m.env) (items : m'.dump.items = m.dump.items.push (.branch (m.pc + 3))) :
      Transfers code m m' .sel
  | ap {argument : Value} {cell : CellId} {closure : Closure} {rest : Array Value}
      (operands : m.stack.items = (rest.push (.closure cell)).push argument)
      (callee : m.heap.closure cell = .ok closure) (entry : m'.pc = closure.entry)
      (items : m'.dump.items = m.dump.items.push (.call (m.pc + 1) m.env)) :
      Transfers code m m' .ap
  | rtn {resume : Nat} {env : Env} (items : m.dump.items = m'.dump.items.push (.call resume env))
      (pc : m'.pc = resume) (env : m'.env = env) : Transfers code m m' .rtn
  | join {resume : Nat} (items : m.dump.items = m'.dump.items.push (.branch resume))
      (pc : m'.pc = resume) (env : m'.env = m.env) : Transfers code m m' .join

/-- An instruction is executed and succeeds. -/
def Performs (code : Code) (op : Opcode) (m m' : Machine) : Prop :=
  code.fetch? m.pc = some op.word ∧ ∃ result, step code m = .ok result m'

variable {code : Code} {m m' : Machine}

/-- An instruction that only comes to a value leaves the dump alone. -/
theorem isPlain_of_puts {op : Opcode} {rest : Array Value} {value : Value} {cells : Array Cell}
    (puts : Puts code m op rest value cells) : op.isPlain = true := by
  cases puts with
  | arith isArith =>
    cases op with
    | add | sub | mul => rfl
    | halt | ldc | ld | sel | ldf | ldrf | ap | rtn | join => cases isArith
  | ldc | ld | ldf | ldrf => rfl

theorem transfers_of_completes {op : Opcode} {result : Option Value}
    (done : Completes code m op result m') : Transfers code m m' op := by
  cases done with
  | value puts => exact .onward (isPlain_of_puts puts) rfl rfl rfl
  | halt => exact .onward rfl rfl rfl rfl
  | sel condition zero nonzero _ inside => exact .sel condition zero nonzero inside rfl rfl
  | ap operands callee => exact .ap operands callee rfl rfl
  | rtn items => exact .rtn items rfl rfl
  | join items => exact .join items rfl rfl

/-- Every step that succeeds executes an instruction and follows its rule. -/
theorem transfers_of_step {result : Option Value} (stepped : step code m = .ok result m') :
    ∃ op, code.fetch? m.pc = some op.word ∧ Transfers code m m' op := by
  obtain ⟨op, found, done⟩ := completes_of_step stepped
  exact ⟨op, found, transfers_of_completes done⟩

/-- What is executed is the instruction at the program counter. -/
theorem Performs.transfers {op : Opcode} (performs : Performs code op m m') :
    Transfers code m m' op := by
  obtain ⟨found, result, stepped⟩ := performs
  obtain ⟨op', found', transfers⟩ := transfers_of_step stepped
  rw [found, Option.some.injEq] at found'
  exact Opcode.word_inj found' ▸ transfers

end Machine

end Secd
