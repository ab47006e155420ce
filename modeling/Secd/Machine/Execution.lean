import Secd.Machine.Parts

/-!
What the instructions do. Every end that an instruction can have is listed here with all that was
found on the way and the machine that is left, and nothing else opens the instructions: an invariant
of steps is a case analysis of these lists.

      completes   LDC LD ADD SUB MUL LDF LDRF   a value is on the stack, and new cells in the heap
                  HALT                          a value is the result
                  SEL AP                        a frame is on the dump
                  RTN JOIN                      a frame is off the dump
      fails       early                         words were fetched and values taken off, no more
                  SEL AP                        behind a frame that stays
                  LDF LDRF                      behind cells that stay
                  RTN JOIN                      without a frame that was taken off
-/

namespace Secd

open Effect

namespace Code

variable {code : Code} {a : Nat} {word : Word}

theorem lt_size_of_fetch? (found : code.fetch? a = some word) : a < code.size :=
  (Array.getElem?_eq_some_iff.1 found).1

end Code

namespace Stack

variable {α : Type} {s : Stack α} {rest : Array α}

/-- The items are the lower part of the stack, or all of it. -/
def StandsOn (s : Stack α) (rest : Array α) : Prop := ∃ taken, s.items = rest ++ taken

theorem standsOn_refl (s : Stack α) : s.StandsOn s.items := ⟨#[], Array.append_empty.symm⟩

theorem standsOn_of_items (items : s.items = rest) : s.StandsOn rest := items ▸ s.standsOn_refl

theorem standsOn_of_push {a : α} (items : s.items = rest.push a) : s.StandsOn rest :=
  ⟨#[a], items⟩

theorem standsOn_of_push_push {a b : α} (items : s.items = (rest.push a).push b) :
    s.StandsOn rest :=
  ⟨#[a, b], items⟩

theorem StandsOn.size_le (stands : s.StandsOn rest) : rest.size ≤ s.height := by
  obtain ⟨taken, items⟩ := stands
  rw [height, items, Array.size_append]
  exact Nat.le_add_right _ _

theorem StandsOn.mem {a : α} (stands : s.StandsOn rest) (mem : a ∈ rest) : a ∈ s.items := by
  obtain ⟨taken, items⟩ := stands
  rw [items]
  exact Array.mem_append_left taken mem

end Stack

namespace Opcode

/-- What an instruction does to two integers. -/
def combine? : Opcode → Option (Word → Word → Word)
  | add => some (· + ·)
  | sub => some (· - ·)
  | mul => some (· * ·)
  | _ => none

/-- The instruction makes a closure. -/
def makesClosure : Opcode → Bool
  | ldf | ldrf => true
  | _ => false

end Opcode

namespace Machine

variable {code : Code} {m : Machine} {op : Opcode}

/-- The machine behind an opcode and `n` operands, with `rest` of its stack. -/
def past (m : Machine) (n : Nat) (rest : Array Value) : Machine :=
  { m with pc := m.pc + 1 + n, stack := m.stack.withItems rest, steps := m.steps + 1 }

/-! ### The ends of an instruction -/

/-- The value that an instruction comes to, what it leaves of the stack below it, and the cells that
it takes for it. -/
inductive Puts (code : Code) (m : Machine) :
    Opcode → Array Value → Value → Array Cell → Prop where
  | ldc {word : Word} (operand : code.fetch? (m.pc + 1) = some word) :
      Puts code m .ldc m.stack.items (.int word) #[]
  | ld {word : Word} {index : Nat} {value : Value} (operand : code.fetch? (m.pc + 1) = some word)
      (isIndex : word.toIndex? = some index) (found : m.heap.lookup index m.env = .ok value) :
      Puts code m .ld m.stack.items value #[]
  | arith {op : Opcode} {combine : Word → Word → Word} {rest : Array Value} {x y : Word}
      (isArith : op.combine? = some combine)
      (items : m.stack.items = (rest.push (.int x)).push (.int y)) :
      Puts code m op rest (.int (combine x y)) #[]
  | ldf {word : Word} {entry : Nat} (operand : code.fetch? (m.pc + 1) = some word)
      (inside : code.address word = .ok entry) :
      Puts code m .ldf m.stack.items (.closure m.heap.size) #[.closure ⟨entry, m.env⟩]
  | ldrf {word : Word} {entry : Nat} (operand : code.fetch? (m.pc + 1) = some word)
      (inside : code.address word = .ok entry) :
      Puts code m .ldrf m.stack.items (.closure (m.heap.size + 1))
        #[.binding (.closure (m.heap.size + 1)) m.env, .closure ⟨entry, some m.heap.size⟩]

/-- How an instruction completes: what it needed for it, its result, and the machine it leaves. -/
inductive Completes (code : Code) (m : Machine) : Opcode → Option Value → Machine → Prop where
  | value {op : Opcode} {rest : Array Value} {value : Value} {cells : Array Cell}
      (puts : Puts code m op rest value cells) (room : rest.size + 1 < m.stack.capacity) :
      Completes code m op none
        { m.past op.operandCount rest with
          stack := (m.stack.withItems rest).pushed value, heap := m.heap.append cells }
  | halt {rest : Array Value} {value : Value} (items : m.stack.items = rest.push value) :
      Completes code m .halt (some value) (m.past 0 rest)
  | sel {rest : Array Value} {n onZero onNonzero : Word} {target : Nat}
      (condition : m.stack.items = rest.push (.int n))
      (zero : code.fetch? (m.pc + 1) = some onZero)
      (nonzero : code.fetch? (m.pc + 2) = some onNonzero)
      (room : m.dump.height + 1 < m.dump.capacity)
      (inside : code.address (if n = 0 then onZero else onNonzero) = .ok target) :
      Completes code m .sel none
        { m.past 2 rest with pc := target, dump := m.dump.pushed (.branch (m.pc + 3)) }
  | ap {rest : Array Value} {argument : Value} {cell : CellId} {closure : Closure}
      (operands : m.stack.items = (rest.push (.closure cell)).push argument)
      (callee : m.heap.closure cell = .ok closure) (room : m.dump.height + 1 < m.dump.capacity) :
      Completes code m .ap none
        { m.past 0 rest with
          pc := closure.entry, env := some m.heap.size
          dump := m.dump.pushed (.call (m.pc + 1) m.env)
          heap := m.heap.append #[.binding argument closure.env] }
  | rtn {rest : Array Frame} {resume : Nat} {env : Env}
      (items : m.dump.items = rest.push (.call resume env)) :
      Completes code m .rtn none
        { m.decoded with pc := resume, env, dump := m.dump.withItems rest }
  | join {rest : Array Frame} {resume : Nat} (items : m.dump.items = rest.push (.branch resume)) :
      Completes code m .join none
        { m.decoded with pc := resume, dump := m.dump.withItems rest }

/-- Why an instruction stops when it has fetched `n` operands, with `rest` of its stack. -/
inductive Stops (code : Code) (m : Machine) :
    Opcode → (n : Nat) → (rest : Array Value) → Fault → Prop where
  | missing {op : Opcode} {n : Nat} {rest : Array Value} (fewer : n < op.operandCount)
      (missing : code.fetch? (m.pc + 1 + n) = none) :
      Stops code m op n rest (.outOfCode (m.pc + 1 + n : Nat) code.size)
  | stackEmpty {op : Opcode} {rest : Array Value} (nothing : rest = #[]) :
      Stops code m op 0 rest (.underflow m.stack.segment)
  | dumpEmpty {op : Opcode} (nothing : m.dump.items = #[]) :
      Stops code m op 0 m.stack.items (.underflow m.dump.segment)
  | valueKind {op : Opcode} {rest : Array Value} {value : Value} {expected : Value.Kind}
      (topmost : m.stack.StandsOn (rest.push value)) (other : value.kind ≠ expected) :
      Stops code m op 0 rest (.valueKind expected value.kind)
  | operand {word : Word} (operand : code.fetch? (m.pc + 1) = some word)
      (noIndex : word.toIndex? = none) : Stops code m .ld 1 m.stack.items (.badOperand .ld word)
  | binding {index : Nat} {fault : Fault} (missing : m.heap.lookup index m.env = .error fault) :
      Stops code m .ld 1 m.stack.items fault
  | callee {rest : Array Value} {cell : CellId} {fault : Fault}
      (held : .closure cell ∈ m.stack.items) (missing : m.heap.closure cell = .error fault) :
      Stops code m .ap 0 rest fault
  | target {op : Opcode} {word : Word} {fault : Fault} (makes : op.makesClosure = true)
      (operand : code.fetch? (m.pc + 1) = some word) (outside : code.address word = .error fault) :
      Stops code m op 1 m.stack.items fault
  | stackFull {op : Opcode} {rest : Array Value} (full : m.stack.capacity ≤ rest.size + 1) :
      Stops code m op op.operandCount rest (.exhausted m.stack.segment m.stack.capacity)
  | dumpFull {op : Opcode} {rest : Array Value} (full : m.dump.capacity ≤ m.dump.height + 1) :
      Stops code m op op.operandCount rest (.exhausted m.dump.segment m.dump.capacity)
  | heapFull {op : Opcode} {rest : Array Value} (full : m.heap.capacity ≤ m.heap.size) :
      Stops code m op op.operandCount rest (.exhausted .heap m.heap.capacity)

/-- How an instruction fails: its fault, and the machine it leaves. -/
inductive Fails (code : Code) (m : Machine) : Opcode → Fault → Machine → Prop where
  | early {op : Opcode} {n : Nat} {rest : Array Value} {fault : Fault}
      (fetched : m.pc + n < code.size) (stands : m.stack.StandsOn rest)
      (stops : Stops code m op n rest fault) : Fails code m op fault (m.past n rest)
  | sel {rest : Array Value} {n onZero onNonzero : Word} {fault : Fault}
      (condition : m.stack.items = rest.push (.int n))
      (zero : code.fetch? (m.pc + 1) = some onZero)
      (nonzero : code.fetch? (m.pc + 2) = some onNonzero)
      (outside : code.address (if n = 0 then onZero else onNonzero) = .error fault) :
      Fails code m .sel fault { m.past 2 rest with dump := m.dump.pushed (.branch (m.pc + 3)) }
  | ap {rest : Array Value} (stands : m.stack.StandsOn rest)
      (full : m.heap.capacity ≤ m.heap.size) :
      Fails code m .ap (.exhausted .heap m.heap.capacity)
        { m.past 0 rest with dump := m.dump.pushed (.call (m.pc + 1) m.env) }
  | closure {op : Opcode} {value : Value} {cells : Array Cell}
      (puts : Puts code m op m.stack.items value cells) (makes : op.makesClosure = true)
      (full : m.stack.capacity ≤ m.stack.height + 1) :
      Fails code m op (.exhausted m.stack.segment m.stack.capacity)
        { m.past 1 m.stack.items with heap := m.heap.append cells }
  | pending {word : Word} (operand : code.fetch? (m.pc + 1) = some word)
      (one : m.heap.size + 1 = m.heap.capacity) :
      Fails code m .ldrf (.exhausted .heap m.heap.capacity)
        { m.past 1 m.stack.items with heap := m.heap.append #[.pending m.env] }
  | frameKind {op : Opcode} {rest : Array Frame} {frame : Frame} {expected : Frame.Kind}
      (items : m.dump.items = rest.push frame) (other : frame.kind ≠ expected) :
      Fails code m op (.frameKind expected frame.kind)
        { m.decoded with dump := m.dump.withItems rest }

/-! ### What all ends have in common -/

theorem Puts.standsOn {rest : Array Value} {value : Value} {cells : Array Cell}
    (puts : Puts code m op rest value cells) : m.stack.StandsOn rest := by
  cases puts with
  | ldc | ld | ldf | ldrf => exact m.stack.standsOn_refl
  | arith _ items => exact Stack.standsOn_of_push_push items

theorem operandCount_of_combine? {combine : Word → Word → Word}
    (isArith : op.combine? = some combine) : op.operandCount = 0 := by
  cases op <;> first | rfl | cases isArith

theorem operandCount_of_makesClosure (makes : op.makesClosure = true) : op.operandCount = 1 := by
  cases op <;> first | rfl | cases makes

theorem Puts.fetched {rest : Array Value} {value : Value} {cells : Array Cell}
    (puts : Puts code m op rest value cells) (inside : m.pc < code.size) :
    m.pc + op.operandCount < code.size := by
  cases puts with
  | ldc operand | ld operand | ldf operand | ldrf operand => exact Code.lt_size_of_fetch? operand
  | arith isArith => rwa [operandCount_of_combine? isArith]

/-- An instruction that completes had all of its words. -/
theorem Completes.fetched {result : Option Value} {m' : Machine}
    (done : Completes code m op result m') (inside : m.pc < code.size) :
    m.pc + op.operandCount < code.size := by
  cases done with
  | value puts => exact puts.fetched inside
  | sel _ _ nonzero => exact Code.lt_size_of_fetch? nonzero
  | halt | ap | rtn | join => exact inside

/-- No instruction reads on behind its operands. -/
theorem Stops.le_operandCount {n : Nat} {rest : Array Value} {fault : Fault}
    (stops : Stops code m op n rest fault) : n ≤ op.operandCount := by
  cases stops with
  | missing fewer => exact Nat.le_of_lt fewer
  | stackEmpty | dumpEmpty | valueKind | callee => exact Nat.zero_le _
  | operand | binding | stackFull | dumpFull | heapFull => exact Nat.le_refl _
  | target makes => exact Nat.le_of_eq (operandCount_of_makesClosure makes).symm

/-! ### Instruction by instruction -/

/-- A value that takes no cells. -/
theorem completes_value {rest : Array Value} {value : Value}
    (puts : Puts code m op rest value #[]) (room : rest.size + 1 < m.stack.capacity) :
    Completes code m op none
      { m.past op.operandCount rest with stack := (m.stack.withItems rest).pushed value } := by
  have done := Completes.value puts room
  rw [Heap.append_empty] at done
  exact done

theorem fails_missing {rest : Array Value} (n : Nat) (fetched : m.pc + n < code.size)
    (stands : m.stack.StandsOn rest) (fewer : n < op.operandCount)
    (missing : code.fetch? (m.pc + 1 + n) = none) :
    Fails code m op (.outOfCode (m.pc + 1 + n : Nat) code.size) (m.past n rest) :=
  .early fetched stands (.missing fewer missing)

/-- An instruction may stop as soon as it is decoded. -/
theorem fails_at_once {fault : Fault} (inside : m.pc < code.size)
    (stops : Stops code m op 0 m.stack.items fault) : Fails code m op fault m.decoded :=
  .early (n := 0) inside m.stack.standsOn_refl stops

/-- It may stop as soon as it has its only operand. -/
theorem fails_behind {word : Word} {fault : Fault} (operand : code.fetch? (m.pc + 1) = some word)
    (stops : Stops code m op 1 m.stack.items fault) :
    Fails code m op fault (m.past 1 m.stack.items) :=
  .early (n := 1) (Code.lt_size_of_fetch? operand) m.stack.standsOn_refl stops

theorem ends_halt (inside : m.pc < code.size) :
    Ends (Completes code m .halt) (Fails code m .halt) (exec code .halt m.decoded) := by
  simp only [exec, ends_bind, ends_onStack, Stack.ends_pop, ends_pure]
  exact ⟨fun _ _ items => .halt items,
    fun empty => fails_at_once inside (.stackEmpty empty)⟩

theorem ends_literal (inside : m.pc < code.size) :
    Ends (Completes code m .ldc) (Fails code m .ldc) (exec code .ldc m.decoded) := by
  simp only [exec, ends_bind, ends_fetch, ends_onStack, Stack.ends_push, ends_pure]
  refine ⟨fun word operand => ⟨fun room => ?_, fun full => ?_⟩, fun missing => ?_⟩
  · exact completes_value (.ldc operand) room
  · exact fails_behind operand (.stackFull full)
  · exact fails_missing 0 inside m.stack.standsOn_refl Nat.zero_lt_one missing

theorem ends_loadBinding (inside : m.pc < code.size) :
    Ends (fun _ m' => Completes code m .ld none m') (Fails code m .ld)
      (loadBinding code m.decoded) := by
  simp only [loadBinding, ends_bind, ends_fetch]
  refine ⟨fun word operand => ?_, fun missing => ?_⟩
  · cases isIndex : word.toIndex? with
    | none => exact fails_behind operand (.operand operand isIndex)
    | some index =>
      simp only [ends_bind, ends_get, ends_check, ends_onStack, Stack.ends_push]
      refine ⟨fun value found => ⟨fun room => ?_, fun full => ?_⟩, fun fault missing => ?_⟩
      · exact completes_value (.ld operand isIndex found) room
      · exact fails_behind operand (.stackFull full)
      · exact fails_behind operand (.binding missing)
  · exact fails_missing 0 inside m.stack.standsOn_refl Nat.zero_lt_one missing

theorem ends_arith {combine : Word → Word → Word} (inside : m.pc < code.size)
    (isArith : op.combine? = some combine) :
    Ends (fun _ m' => Completes code m op none m') (Fails code m op)
      (arith combine m.decoded) := by
  have count : op.operandCount = 0 := operandCount_of_combine? isArith
  have early {rest : Array Value} {fault : Fault} (stands : m.stack.StandsOn rest)
      (stops : Stops code m op 0 rest fault) : Fails code m op fault (m.past 0 rest) :=
    .early inside stands stops
  simp only [arith, ends_bind, ends_onStack, Stack.ends_popInt, Stack.ends_push]
  refine ⟨fun rest y first => ⟨fun rest' x second => ?_, fun rest' cell second => ?_,
    fun empty => ?_⟩, fun rest cell first => ?_, fun empty => ?_⟩
  · have items : m.stack.items = (rest'.push (.int x)).push (.int y) := by
      rw [← show rest = rest'.push (.int x) from second]
      exact first
    refine ⟨fun room => ?_, fun full => early (Stack.standsOn_of_push_push items) ?_⟩
    · have puts : Puts code m op rest' (.int (combine x y)) #[] := .arith isArith items
      have done := completes_value puts room
      rw [count] at done
      exact done
    · have stops : Stops code m op op.operandCount rest' _ := .stackFull full
      rw [count] at stops
      exact stops
  · have items : m.stack.items = (rest'.push (.closure cell)).push (.int y) := by
      rw [← show rest = rest'.push (.closure cell) from second]
      exact first
    exact early (Stack.standsOn_of_push_push items)
      (.valueKind (Stack.standsOn_of_push items) Value.Kind.noConfusion)
  · exact early (Stack.standsOn_of_push first) (.stackEmpty empty)
  · have topmost : m.stack.StandsOn (rest.push (.closure cell)) := Stack.standsOn_of_items first
    exact early (Stack.standsOn_of_push first) (.valueKind topmost Value.Kind.noConfusion)
  · exact fails_at_once inside (.stackEmpty empty)

/-- The frame of a branch is there before its target is looked at. -/
theorem ends_select (inside : m.pc < code.size) :
    Ends (fun _ m' => Completes code m .sel none m') (Fails code m .sel)
      (select code m.decoded) := by
  simp only [select, ends_bind, ends_onStack, Stack.ends_popInt, ends_fetch, ends_get, ends_onDump,
    Stack.ends_push, ends_check, ends_jump]
  refine ⟨fun rest n condition => ?_, fun rest cell items => ?_, fun empty => ?_⟩
  · have stands : m.stack.StandsOn rest := Stack.standsOn_of_push condition
    refine ⟨fun onZero zero => ⟨fun onNonzero nonzero => ⟨fun room => ?_, fun full => ?_⟩,
      fun missing => ?_⟩, fun missing => ?_⟩
    · exact ⟨fun target inside => .sel condition zero nonzero room inside,
        fun fault outside => .sel condition zero nonzero outside⟩
    · exact .early (n := 2) (Code.lt_size_of_fetch? nonzero) stands (.dumpFull full)
    · exact fails_missing 1 (Code.lt_size_of_fetch? zero) stands (Nat.lt_succ_self 1) missing
    · exact fails_missing 0 inside stands Nat.zero_lt_two missing
  · have topmost : m.stack.StandsOn (rest.push (.closure cell)) := Stack.standsOn_of_items items
    exact .early (n := 0) inside (Stack.standsOn_of_push items)
      (.valueKind topmost Value.Kind.noConfusion)
  · exact fails_at_once inside (.stackEmpty empty)

/-- Both ways to make a closure go through the same parts. -/
theorem ends_loadClosure {capture : Nat → Env → Effect Heap CellId} (inside : m.pc < code.size)
    (makes : op.makesClosure = true)
    (captures : ∀ word entry, code.fetch? (m.pc + 1) = some word → code.address word = .ok entry →
      Ends (fun cell h => ∃ cells, h = m.heap.append cells ∧
          Puts code m op m.stack.items (.closure cell) cells)
        (fun fault h => Fails code m op fault { m.past 1 m.stack.items with heap := h })
        (capture entry m.env m.heap)) :
    Ends (fun _ m' => Completes code m op none m') (Fails code m op)
      (loadClosure code capture m.decoded) := by
  have count : op.operandCount = 1 := operandCount_of_makesClosure makes
  simp only [loadClosure, ends_bind, ends_fetch, ends_check, ends_get, ends_onHeap, ends_onStack]
  refine ⟨fun word operand => ⟨fun entry isEntry => ?_, fun fault outside => ?_⟩,
    fun missing => ?_⟩
  · refine (captures word entry operand isEntry).imp ?_ fun _ _ fails => fails
    rintro cell _ ⟨cells, rfl, puts⟩
    rw [Stack.ends_push]
    refine ⟨fun room => ?_, fun full => .closure puts makes full⟩
    have done := Completes.value puts room
    rw [count] at done
    exact done
  · exact fails_behind operand (.target makes operand outside)
  · exact fails_missing 0 inside m.stack.standsOn_refl (count ▸ Nat.zero_lt_one) missing

/-- The frame of a call is there before the argument is bound. -/
theorem ends_apply (inside : m.pc < code.size) :
    Ends (fun _ m' => Completes code m .ap none m') (Fails code m .ap) (apply m.decoded) := by
  have early {rest : Array Value} {fault : Fault} (stands : m.stack.StandsOn rest)
      (stops : Stops code m .ap 0 rest fault) : Fails code m .ap fault (m.past 0 rest) :=
    .early inside stands stops
  simp only [apply, ends_bind, ends_onStack, Stack.ends_pop, Stack.ends_popClosure, ends_get,
    ends_check, ends_onDump, Stack.ends_push, ends_onHeap, Heap.ends_extend, ends_enter, ends_jump]
  refine ⟨fun rest argument first => ⟨fun rest' cell second => ?_, fun rest' n second => ?_,
    fun empty => ?_⟩, fun empty => ?_⟩
  · have items : m.stack.items = (rest'.push (.closure cell)).push argument := by
      rw [← show rest = rest'.push (.closure cell) from second]
      exact first
    have stands : m.stack.StandsOn rest' := Stack.standsOn_of_push_push items
    have held : .closure cell ∈ m.stack.items := by simp [items]
    refine ⟨fun closure callee => ⟨fun room => ⟨fun free => ?_, fun full => .ap stands full⟩,
      fun full => early stands (.dumpFull full)⟩, fun fault missing => ?_⟩
    · exact .ap items callee room
    · exact early stands (.callee held missing)
  · have items : m.stack.items = (rest'.push (.int n)).push argument := by
      rw [← show rest = rest'.push (.int n) from second]
      exact first
    exact early (Stack.standsOn_of_push_push items)
      (.valueKind (Stack.standsOn_of_push items) Value.Kind.noConfusion)
  · exact early (Stack.standsOn_of_push first) (.stackEmpty empty)
  · exact fails_at_once inside (.stackEmpty empty)

theorem ends_ret (inside : m.pc < code.size) :
    Ends (fun _ m' => Completes code m .rtn none m') (Fails code m .rtn) (ret m.decoded) := by
  simp only [ret, ends_bind, ends_onDump, Stack.ends_popCall, ends_jump, ends_enter]
  exact ⟨fun _ _ _ items => .rtn items,
    fun _ _ items => .frameKind (m := m) items Frame.Kind.noConfusion,
    fun empty => fails_at_once inside (.dumpEmpty empty)⟩

theorem ends_join (inside : m.pc < code.size) :
    Ends (Completes code m .join) (Fails code m .join) (exec code .join m.decoded) := by
  simp only [exec, ends_bind, ends_onDump, Stack.ends_popBranch, ends_jump, ends_pure]
  exact ⟨fun _ _ items => .join items,
    fun _ _ _ items => .frameKind (m := m) items Frame.Kind.noConfusion,
    fun empty => fails_at_once inside (.dumpEmpty empty)⟩

/-- Every instruction ends in one of these ways. -/
theorem ends_exec (found : code.fetch? m.pc = some op.word) :
    Ends (Completes code m op) (Fails code m op) (exec code op m.decoded) := by
  have inside : m.pc < code.size := Code.lt_size_of_fetch? found
  cases op with
  | halt => exact ends_halt inside
  | ldc => exact ends_literal inside
  | ld => exact (ends_loadBinding inside).bind fun _ _ done => done
  | add | sub | mul => exact (ends_arith inside rfl).bind fun _ _ done => done
  | sel => exact (ends_select inside).bind fun _ _ done => done
  | ldf =>
    refine (ends_loadClosure inside rfl fun word entry operand isEntry => ?_).bind
      fun _ _ done => done
    refine Heap.ends_capture.2 ⟨fun _ => ⟨_, rfl, .ldf operand isEntry⟩, fun full => ?_⟩
    exact fails_behind operand (.heapFull full)
  | ldrf =>
    refine (ends_loadClosure inside rfl fun word entry operand isEntry => ?_).bind
      fun _ _ done => done
    refine Heap.ends_captureRec.2 ⟨fun _ => ⟨_, rfl, .ldrf operand isEntry⟩,
      fun one => .pending operand one, fun full => ?_⟩
    exact fails_behind operand (.heapFull full)
  | ap => exact (ends_apply inside).bind fun _ _ done => done
  | rtn => exact (ends_ret inside).bind fun _ _ done => done
  | join => exact ends_join inside

/-! ### Steps -/

section

variable {Q : Option Value → Machine → Prop} {E : Trap → Machine → Prop}

/-- At an opcode a step ends as the instruction does. -/
theorem ends_step_of_found (found : code.fetch? m.pc = some op.word)
    (executed : Ends Q (fun fault m' => E ⟨m.pc, fault⟩ m') (exec code op m.decoded)) :
    Ends Q E (step code m) := by
  rw [ends_step]
  refine ⟨fun op' there => ?_, fun word there unknown => ?_, fun missing => ?_⟩
  · obtain rfl := Opcode.word_inj (Option.some.inj (found.symm.trans there))
    exact executed
  · rw [← Option.some.inj (found.symm.trans there), Opcode.ofWord?_word] at unknown
    cases unknown
  · exact nomatch found.symm.trans missing

/-- A step ends before it has an instruction, or in one of the ways of its instruction. -/
theorem step_cases
    (completes : ∀ op result m', code.fetch? m.pc = some op.word →
      Completes code m op result m' → Q result m')
    (fails : ∀ op fault m', code.fetch? m.pc = some op.word →
      Fails code m op fault m' → E ⟨m.pc, fault⟩ m')
    (unknown : ∀ word, code.fetch? m.pc = some word → Opcode.ofWord? word = none →
      E ⟨m.pc, .badOpcode word⟩ { m with pc := m.pc + 1 })
    (missing : code.fetch? m.pc = none → E ⟨m.pc, .outOfCode m.pc code.size⟩ m) :
    Ends Q E (step code m) := by
  rw [ends_step]
  refine ⟨fun op found => ?_, unknown, missing⟩
  exact (ends_exec found).imp (fun result m' => completes op result m' found)
    fun fault m' => fails op fault m' found

end

/-- A step that succeeds has completed an instruction. -/
theorem completes_of_step {result : Option Value} {m' : Machine}
    (stepped : step code m = .ok result m') :
    ∃ op, code.fetch? m.pc = some op.word ∧ Completes code m op result m' := by
  have ends : Ends (fun result m' =>
      ∃ op, code.fetch? m.pc = some op.word ∧ Completes code m op result m')
      (fun _ _ => True) (step code m) :=
    step_cases (fun op _ _ found done => ⟨op, found, done⟩) (fun _ _ _ _ _ => trivial)
      (fun _ _ _ => trivial) fun _ => trivial
  rw [stepped] at ends
  exact ends

end Machine

end Secd
