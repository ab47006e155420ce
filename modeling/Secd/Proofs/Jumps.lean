import Secd.Proofs.Control
import Secd.Proofs.Steps

/-!
Where a machine can go. The code may be anything, cut anywhere into instructions, and steps may go
wrong halfway: the machine still goes only to places that the words of the code give. No integer
that it computes is ever among them unless the code says so as well.

      SEL t f     goes to t or f, and leaves a frame that resumes behind f
      LDF e       makes a closure that enters at e, and so does LDRF
      AP          goes where the closure enters, and leaves a frame that resumes behind itself

What a step can leave behind, however it ends, is read off the instructions once. It asks nothing of
the machine, and the invariant follows from it.
-/

namespace Secd

open Effect

/-! ### Places that the code gives -/

namespace Code

/-- The place is in the code, and written there as the operand number `j` of an opcode `op`. -/
def Names (code : Code) (op : Opcode) (j place : Nat) : Prop :=
  place < code.size ∧ ∃ a word, code.fetch? a = some op.word ∧ code.fetch? (a + j) = some word ∧
    word.toInt = place

/-- Somewhere in the code the place is written right behind LDF or LDRF. -/
def IsEntry (code : Code) (place : Nat) : Prop := code.Names .ldf 1 place ∨ code.Names .ldrf 1 place

/-- The frame resumes right behind an instruction that leaves frames of its kind. -/
def Resumes (code : Code) : Frame → Prop
  | .branch resume =>
    3 ≤ resume ∧ resume ≤ code.size ∧ code.fetch? (resume - 3) = some Opcode.sel.word
  | .call resume _ =>
    1 ≤ resume ∧ resume ≤ code.size ∧ code.fetch? (resume - 1) = some Opcode.ap.word

/-- The code gives the place as one to jump to. -/
inductive Leads (code : Code) : Nat → Prop where
  | branch {j place : Nat} (operand : j = 1 ∨ j = 2) (named : code.Names .sel j place) :
      Leads code place
  | entry {place : Nat} (named : code.IsEntry place) : Leads code place
  | resume {frame : Frame} (resumes : code.Resumes frame) : Leads code frame.resume

variable {code : Code} {a place : Nat} {word : Word}

theorem Resumes.le_size {frame : Frame} (resumes : code.Resumes frame) :
    frame.resume ≤ code.size := by
  cases frame with
  | branch resume => exact resumes.2.1
  | call resume env => exact resumes.2.1

theorem IsEntry.lt_size (named : code.IsEntry place) : place < code.size :=
  named.elim And.left And.left

theorem address_eq_ok (h : code.address word = .ok place) :
    place < code.size ∧ word.toInt = place := by
  unfold address at h
  split at h
  · rename_i index isIndex
    split at h
    · rename_i inside
      cases h
      exact ⟨inside, Int.mem_toNat?.1 isIndex⟩
    · cases h
  · cases h

/-- An operand that is used as an address is a place that the code names. -/
theorem names_of_address {op : Opcode} {j : Nat} (found : code.fetch? a = some op.word)
    (operand : code.fetch? (a + j) = some word) (h : code.address word = .ok place) :
    code.Names op j place := by
  obtain ⟨inside, same⟩ := address_eq_ok h
  exact ⟨inside, a, word, found, operand, same⟩

end Code

namespace Machine

variable {code : Code} {m m' : Machine} {op : Opcode}

/-! ### What a step can leave behind -/

/-- The places at which the next step can leave the machine. -/
inductive Goes (code : Code) (m : Machine) : Nat → Prop where
  /-- A few words further on, all of which were there. -/
  | onward {pc : Nat} (later : m.pc ≤ pc) (near : pc ≤ m.pc + 3)
      (inside : pc = m.pc ∨ pc ≤ code.size) : Goes code m pc
  | branch {j pc : Nat} (operand : j = 1 ∨ j = 2) (named : code.Names .sel j pc) : Goes code m pc
  | entry {closure : Closure} (held : .closure closure ∈ m.heap.cells) : Goes code m closure.entry
  | resume {frame : Frame} (held : frame ∈ m.dump.items) : Goes code m frame.resume

/-- The program counter goes to such a place, and every frame and every closure that was not there
before the step is one that the code gives. -/
structure Leaves (code : Code) (m m' : Machine) : Prop where
  pc : Goes code m m'.pc
  frames : ∀ frame ∈ m'.dump.items, frame ∈ m.dump.items ∨ code.Resumes frame
  closures : ∀ closure, .closure closure ∈ m'.heap.cells →
    .closure closure ∈ m.heap.cells ∨ code.IsEntry closure.entry

/-- Nothing at all may have happened. -/
theorem leaves_refl (code : Code) (m : Machine) : Leaves code m m where
  pc := .onward (Nat.le_refl _) (Nat.le_add_right _ _) (.inl rfl)
  frames := fun _ mem => .inl mem
  closures := fun _ mem => .inl mem

/-- A step that leaves the dump alone can only have gone on, by so many words, and a closure that
it makes has to enter where the code says. -/
theorem leaves_grown {cells : Array Cell} (n : Nat) (few : n ≤ 3)
    (new : ∀ closure, .closure closure ∈ cells → code.IsEntry closure.entry)
    (pc : m'.pc = m.pc + n) (inside : m.pc + n ≤ code.size)
    (dump : m'.dump.items = m.dump.items) (heap : m'.heap = m.heap.append cells) :
    Leaves code m m' where
  pc := .onward (by omega) (by omega) (.inr (by omega))
  frames := fun _ mem => .inl (dump ▸ mem)
  closures := by
    intro closure mem
    rw [heap] at mem
    exact (Array.mem_append.1 mem).imp id (new closure)

/-- A step that leaves dump and heap alone can only have gone on. -/
theorem leaves_onward (n : Nat) (few : n ≤ 3) (pc : m'.pc = m.pc + n)
    (inside : m.pc + n ≤ code.size) (dump : m'.dump.items = m.dump.items)
    (heap : m'.heap = m.heap) : Leaves code m m' :=
  leaves_grown n few (fun _ none => absurd none (Array.not_mem_empty _)) pc inside dump
    (heap.trans Heap.append_empty.symm)

/-- A frame that is taken off was there before, and so were those below it. -/
theorem leaves_popped {frame : Frame} {rest : Array Frame} (items : m.dump.items = rest.push frame)
    (inside : m.pc < code.size) (pc : m'.pc = frame.resume ∨ m'.pc = m.pc + 1)
    (dump : m'.dump.items = rest) (heap : m'.heap = m.heap) : Leaves code m m' where
  pc := by
    rcases pc with resumed | onward
    · rw [resumed]
      exact .resume (items ▸ Array.mem_push_self)
    · exact .onward (by omega) (by omega) (.inr (by omega))
  frames := fun _ mem => .inl (items ▸ Array.mem_push_of_mem frame (dump ▸ mem))
  closures := fun _ mem => .inl (heap ▸ mem)

/-- A new frame has to resume behind the instruction that leaves it. -/
theorem leaves_pushed {frame : Frame} {cells : Array Cell} (pc : Goes code m m'.pc)
    (resumes : code.Resumes frame) (dump : m'.dump.items = m.dump.items.push frame)
    (heap : m'.heap = m.heap.append cells) (noClosure : ∀ closure, .closure closure ∉ cells) :
    Leaves code m m' where
  pc := pc
  frames := by
    rw [dump, Array.forall_mem_push]
    exact ⟨.inr resumes, fun _ mem => .inl mem⟩
  closures := by
    intro closure mem
    rw [heap] at mem
    exact .inl ((Array.mem_append.1 mem).resolve_right (noClosure closure))

/-! ### However an instruction ends -/

theorem operandCount_le (op : Opcode) : op.operandCount ≤ 2 := by
  cases op <;> decide

/-- A closure is made only where its entry is an address of the code. -/
theorem Puts.entries {rest : Array Value} {value : Value} {cells : Array Cell}
    (puts : Puts code m op rest value cells) (found : code.fetch? m.pc = some op.word) :
    ∀ closure, .closure closure ∈ cells → code.IsEntry closure.entry := by
  cases puts with
  | ldc | ld | arith => simp
  | ldf operand inside =>
    rintro closure mem
    cases Array.mem_singleton.1 mem
    exact .inl (Code.names_of_address found operand inside)
  | ldrf operand inside =>
    rintro closure mem
    simp only [List.mem_toArray, List.mem_cons, reduceCtorEq, Cell.closure.injEq, List.not_mem_nil,
      or_false, false_or] at mem
    subst mem
    exact .inr (Code.names_of_address found operand inside)

theorem Completes.leaves {result : Option Value} (done : Completes code m op result m')
    (found : code.fetch? m.pc = some op.word) : Leaves code m m' := by
  have inside : m.pc < code.size := Code.lt_size_of_fetch? found
  have fetched := done.fetched inside
  cases done with
  | value puts =>
    have few := operandCount_le op
    refine leaves_grown (1 + op.operandCount) (by omega) (puts.entries found) ?_ (by omega) rfl rfl
    exact Nat.add_assoc _ _ _
  | halt => exact leaves_onward 1 (by decide) rfl inside rfl rfl
  | @sel rest n onZero onNonzero target condition zero nonzero room isTarget =>
    have resumes : code.Resumes (.branch (m.pc + 3)) := ⟨Nat.le_add_left _ _, fetched, found⟩
    have goes : Goes code m target := by
      by_cases zeroed : n = 0
      · rw [if_pos zeroed] at isTarget
        exact .branch (.inl rfl) (Code.names_of_address found zero isTarget)
      · rw [if_neg zeroed] at isTarget
        exact .branch (.inr rfl) (Code.names_of_address found nonzero isTarget)
    exact leaves_pushed goes resumes rfl Heap.append_empty.symm fun _ => Array.not_mem_empty _
  | ap _ callee =>
    have resumes : code.Resumes (.call (m.pc + 1) m.env) := ⟨Nat.le_add_left _ _, inside, found⟩
    refine leaves_pushed (.entry (Heap.mem_of_closure callee)) resumes rfl rfl ?_
    simp
  | rtn items => exact leaves_popped items inside (.inl rfl) rfl rfl
  | join items => exact leaves_popped items inside (.inl rfl) rfl rfl

theorem Fails.leaves {fault : Fault} (fails : Fails code m op fault m')
    (found : code.fetch? m.pc = some op.word) : Leaves code m m' := by
  have inside : m.pc < code.size := Code.lt_size_of_fetch? found
  cases fails with
  | @early _ n rest _ fetched stands stops =>
    have few := Nat.le_trans stops.le_operandCount (operandCount_le op)
    exact leaves_onward (1 + n) (by omega) (Nat.add_assoc _ _ _) (by omega) rfl rfl
  -- the frames of a branch and of a call are there before anything can go wrong behind them
  | sel _ _ nonzero =>
    have all : m.pc + 3 ≤ code.size := Code.lt_size_of_fetch? nonzero
    have resumes : code.Resumes (.branch (m.pc + 3)) := ⟨Nat.le_add_left _ _, all, found⟩
    have onward : Goes code m (m.pc + 3) :=
      .onward (Nat.le_add_right _ 3) (Nat.le_refl _) (.inr all)
    exact leaves_pushed onward resumes rfl Heap.append_empty.symm fun _ => Array.not_mem_empty _
  | ap =>
    have resumes : code.Resumes (.call (m.pc + 1) m.env) := ⟨Nat.le_add_left _ _, inside, found⟩
    have onward : Goes code m (m.pc + 1) := .onward (Nat.le_succ _) (by omega) (.inr inside)
    exact leaves_pushed onward resumes rfl Heap.append_empty.symm fun _ => Array.not_mem_empty _
  | closure puts makes =>
    have fetched := puts.fetched inside
    rw [operandCount_of_makesClosure makes] at fetched
    exact leaves_grown 2 (by decide) (puts.entries found) rfl fetched rfl rfl
  | pending operand =>
    have both : m.pc + 2 ≤ code.size := Code.lt_size_of_fetch? operand
    exact leaves_grown 2 (by decide) (by simp) rfl both rfl rfl
  | frameKind items => exact leaves_popped items inside (.inr rfl) rfl rfl

/-- However a step ends, it leaves the machine in such a place. -/
theorem leaves_step (code : Code) (m : Machine) :
    EndsIn (Leaves code m) (step code m) := by
  refine step_cases (fun op result m' found done => done.leaves found)
    (fun op fault m' found fails => fails.leaves found) (fun word found _ => ?_)
    fun _ => leaves_refl code m
  exact leaves_onward 1 (by decide) rfl (Code.lt_size_of_fetch? found) rfl rfl

/-! ### Every machine that is ever reached -/

/-- The machine is in the code or at its end, and holds only frames and closures that the code
gives. -/
structure Confined (code : Code) (m : Machine) : Prop where
  pc : m.pc ≤ code.size
  frames : ∀ frame ∈ m.dump.items, code.Resumes frame
  closures : ∀ closure, .closure closure ∈ m.heap.cells → code.IsEntry closure.entry

/-- A machine that holds nothing else does not leave the code. -/
theorem Confined.leads (confined : m.Confined code) {pc : Nat} (goes : Goes code m pc) :
    m.pc ≤ pc ∧ pc ≤ m.pc + 3 ∨ code.Leads pc := by
  cases goes with
  | onward later near => exact .inl ⟨later, near⟩
  | branch operand named => exact .inr (.branch operand named)
  | entry held => exact .inr (.entry (confined.closures _ held))
  | resume held => exact .inr (.resume (confined.frames _ held))

theorem Confined.le_size (confined : m.Confined code) {pc : Nat} (goes : Goes code m pc) :
    pc ≤ code.size := by
  cases goes with
  | onward _ _ inside => exact inside.elim (fun same => same ▸ confined.pc) id
  | branch _ named => exact Nat.le_of_lt named.1
  | entry held => exact Nat.le_of_lt (confined.closures _ held).lt_size
  | resume held => exact (confined.frames _ held).le_size

theorem Confined.of_leaves (confined : m.Confined code) (leaves : Leaves code m m') :
    m'.Confined code where
  pc := confined.le_size leaves.pc
  frames := fun frame mem => (leaves.frames frame mem).elim (confined.frames frame) id
  closures := fun closure mem => (leaves.closures closure mem).elim (confined.closures closure) id

theorem confined_of_init {caps : Capacities} (started : init? caps = .ok m) :
    m.Confined code := by
  obtain rfl := init?_eq_ok started
  exact ⟨Nat.zero_le _, by simp [fresh], by simp [fresh]⟩

/-- However often a machine is stepped over whatever code, also past traps and HALT, it stays in the
code or at its end, its frames resume right behind a SEL or an AP, its closures enter where LDF or
LDRF say, and the next step goes a few words further on or to a place that the code gives. -/
theorem confined_iterate_next {caps : Capacities} (started : init? caps = .ok m) (code : Code)
    (n : Nat) :
    ((next code)^[n] m).Confined code ∧
      (((next code)^[n] m).pc ≤ ((next code)^[n + 1] m).pc ∧
          ((next code)^[n + 1] m).pc ≤ ((next code)^[n] m).pc + 3 ∨
        code.Leads ((next code)^[n + 1] m).pc) := by
  have confined : ((next code)^[n] m).Confined code :=
    iterate_next (fun m confined => (leaves_step code m).imp
      (fun _ _ leaves => confined.of_leaves leaves) fun _ _ leaves => confined.of_leaves leaves) n
      (confined_of_init started)
  have leaves : Leaves code ((next code)^[n] m) (next code ((next code)^[n] m)) :=
    next_of_ends (leaves_step code _)
  rw [Function.iterate_succ_apply']
  exact ⟨confined, confined.leads leaves.pc⟩

/-- A call whose body branches out of the code: the step traps behind its SEL, with both frames on
the dump, and from the end of the code the machine cannot go on. -/
theorem confined_after_half_a_branch :
    let code : Code := ⟨16, #[7, 5, 1, 3, 9, 1, 0, 6, -1, 99]⟩
    ∃ m, init? {} = .ok m ∧ ((next code)^[5] m).dump.items = #[.call 5 none, .branch 10] ∧
      ((next code)^[7] m).Confined code ∧ ((next code)^[7] m).pc = 10 := by
  intro code
  have started : init? {} = .ok (fresh {}) := rfl
  exact ⟨_, started, by decide +kernel, (confined_iterate_next started code 7).1, by decide +kernel⟩

end Machine

end Secd
