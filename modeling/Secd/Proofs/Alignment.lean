import Secd.Proofs.Control
import Secd.Proofs.Termination

/-!
Machines that stay on the boundaries of instructions. Suppose that code divides into instructions
and that every word which SEL, LDF or LDRF takes for an address is the address of a boundary. Then
the addresses that a machine holds are boundaries as well:

      program counter     from a boundary, past an instruction, to a boundary
      frames on the dump  resume past the SEL or the AP that left them
      closures            enter at an operand of LDF or LDRF

The only boundary that is no instruction is the end of the code, so that a machine which leaves the
code does so there.
-/

namespace Secd

open Effect

/-- The operands of the instruction are addresses. -/
def Opcode.takesTargets : Opcode → Bool
  | .sel | .ldf | .ldrf => true
  | _ => false

/-- The fault is no unknown opcode, and no address outside the code but the one right behind it. -/
def Fault.OnlyAtEnd (length : Nat) : Fault → Prop
  | .badOpcode _ => False
  | .outOfCode address _ => address = length
  | _ => True

variable {At : Nat → Prop} {code : Code} {op : Opcode}

/-- The code is divided into instructions at some addresses, and all targets are among them. -/
structure Code.Divides (code : Code) (At : Nat → Prop) : Prop where
  start : At 0
  bounded : ∀ {a : Nat}, At a → a ≤ code.size
  instruction : ∀ {a : Nat}, At a → a < code.size → ∃ op : Opcode, code.fetch? a = some op.word
  next : ∀ {a : Nat} {op : Opcode}, At a → code.fetch? a = some op.word →
    At (a + 1 + op.operandCount)
  target : ∀ {a j : Nat} {op : Opcode} {word : Word}, At a → code.fetch? a = some op.word →
    op.takesTargets = true → 0 < j → j ≤ op.operandCount → code.fetch? (a + j) = some word →
      ∃ t, At t ∧ word.toIndex? = some t

namespace Code.Divides

variable {a : Nat} {word : Word}

/-- The operands of an instruction are all there. -/
theorem operand_ne_none (divides : code.Divides At) (here : At a)
    (found : code.fetch? a = some op.word) {j : Nat} (le : j ≤ op.operandCount) :
    code.fetch? (a + j) ≠ none := by
  have inside := divides.bounded (divides.next here found)
  rw [Code.fetch?, ne_eq, Array.getElem?_eq_none_iff, Nat.not_le]
  exact Nat.lt_of_lt_of_le (by omega) inside

/-- Going to a target leads to a boundary or fails at the end of the code. -/
theorem address (divides : code.Divides At) {t : Nat} (there : At t)
    (isTarget : word.toIndex? = some t) :
    (∀ a, code.address word = .ok a → At a) ∧
      ∀ fault, code.address word = .error fault → fault.OnlyAtEnd code.size := by
  unfold Code.address
  rw [isTarget]
  simp only
  by_cases inside : t < code.size
  · rw [if_pos inside]
    refine ⟨?_, nofun⟩
    rintro _ ⟨⟩
    exact there
  · rw [if_neg inside]
    refine ⟨nofun, ?_⟩
    rintro _ ⟨⟩
    have atEnd := divides.bounded there
    have value : word.toInt = t := Int.mem_toNat?.1 isTarget
    change word.toInt = code.size
    omega

/-- Whichever way a branch goes, it goes to a target. -/
theorem branch (divides : code.Divides At) (here : At a)
    (found : code.fetch? a = some Opcode.sel.word) {onZero onNonzero : Word}
    (zero : code.fetch? (a + 1) = some onZero) (nonzero : code.fetch? (a + 2) = some onNonzero)
    (n : Word) : ∃ t, At t ∧ (if n = 0 then onZero else onNonzero).toIndex? = some t := by
  split
  · exact divides.target here found rfl Nat.zero_lt_one (by decide) zero
  · exact divides.target here found rfl Nat.zero_lt_two (by decide) nonzero

end Code.Divides

/-- The closures in the heap enter the code at some of the addresses. -/
def Heap.Enters (h : Heap) (At : Nat → Prop) : Prop :=
  ∀ closure, Cell.closure closure ∈ h.cells → At closure.entry

theorem Heap.Enters.append {h : Heap} {cells : Array Cell} (enters : h.Enters At)
    (new : ∀ closure, Cell.closure closure ∈ cells → At closure.entry) :
    (h.append cells).Enters At :=
  fun closure mem => (Array.mem_append.1 mem).elim (enters closure) (new closure)

theorem Heap.Enters.entry {h : Heap} {cell : CellId} {closure : Closure} (enters : h.Enters At)
    (held : h.closure cell = .ok closure) : At closure.entry :=
  enters closure (mem_of_closure held)

/-! ### Faults of the code -/

/-- The fault comes from reading code: an unknown opcode, or an address outside the code. -/
def Fault.isOfCode : Fault → Bool
  | .badOpcode _ | .outOfCode _ _ => true
  | _ => false

theorem Fault.onlyAtEnd_of_isOfCode {fault : Fault} (other : fault.isOfCode = false)
    (length : Nat) : fault.OnlyAtEnd length := by
  cases fault <;> trivial

theorem Heap.isOfCode_of_link {h : Heap} {cell : CellId} {fault : Fault}
    (failed : h.link cell = .error fault) : fault.isOfCode = false := by
  unfold Heap.link at failed
  split at failed <;> cases failed <;> rfl

/-- A lookup has nothing to do with the code. -/
theorem Heap.isOfCode_of_lookupFrom {h : Heap} {index more depth : Nat} {env : Env}
    {fault : Fault} (failed : h.lookupFrom index more depth env = .error fault) :
    fault.isOfCode = false := by
  fun_induction Heap.lookupFrom h index more depth env with
  | case1 => cases failed; rfl
  | case2 _ _ _ missing => cases failed; exact Heap.isOfCode_of_link missing
  | case3 => cases failed
  | case4 => cases failed; rfl
  | case5 _ _ _ _ missing => cases failed; exact Heap.isOfCode_of_link missing
  | case6 _ _ _ _ _ ih => exact ih failed

theorem Heap.isOfCode_of_closure {h : Heap} {cell : CellId} {fault : Fault}
    (failed : h.closure cell = .error fault) : fault.isOfCode = false := by
  unfold Heap.closure at failed
  split at failed <;> cases failed <;> rfl

namespace Machine

/-- What the fault of an instruction has to do with the code: nothing, or an operand is missing, or
all of them are there and one is no address. -/
inductive Misses (code : Code) (m : Machine) (op : Opcode) (fault : Fault) (m' : Machine) :
    Prop where
  | other (elsewhere : fault.isOfCode = false)
  | operand {j : Nat} (fewer : j < op.operandCount) (missing : code.fetch? (m.pc + 1 + j) = none)
      (there : fault = .outOfCode (m.pc + 1 + j : Nat) code.size)
  | target {j : Nat} {word : Word} (takes : op.takesTargets = true) (fetched : j < op.operandCount)
      (operand : code.fetch? (m.pc + 1 + j) = some word)
      (outside : code.address word = .error fault) (pc : m'.pc = m.pc + 1 + op.operandCount)

theorem takesTargets_of_makesClosure (makes : op.makesClosure = true) :
    op.takesTargets = true := by
  cases op <;> first | rfl | cases makes

theorem Fails.misses {m m' : Machine} {fault : Fault} (fails : Fails code m op fault m') :
    Misses code m op fault m' := by
  cases fails with
  | early _ _ stops =>
    cases stops with
    | missing fewer missing => exact .operand fewer missing rfl
    | binding missing => exact .other (Heap.isOfCode_of_lookupFrom missing)
    | callee _ missing => exact .other (Heap.isOfCode_of_closure missing)
    | target makes operand outside =>
      have count := operandCount_of_makesClosure makes
      refine .target (j := 0) (takesTargets_of_makesClosure makes) ?_ operand outside ?_
      · rw [count]
        exact Nat.zero_lt_one
      · rw [count]
        rfl
    | stackEmpty | dumpEmpty | valueKind | operand | stackFull | dumpFull | heapFull =>
      exact .other rfl
  | @sel _ n _ _ _ _ zero nonzero outside =>
    by_cases zeroed : n = 0
    · rw [if_pos zeroed] at outside
      exact .target (j := 0) rfl Nat.zero_lt_two zero outside rfl
    · rw [if_neg zeroed] at outside
      exact .target (j := 1) rfl Nat.one_lt_two nonzero outside rfl
  | ap | closure | pending | frameKind => exact .other rfl

/-- An address may be outside the code, but never an unknown opcode. -/
theorem ne_badOpcode_of_address {word : Word} {fault : Fault}
    (outside : code.address word = .error fault) (word' : Word) : fault ≠ .badOpcode word' := by
  rintro rfl
  unfold Code.address at outside
  split at outside
  · split at outside <;> cases outside
  · cases outside

/-- An instruction may fail in many ways, but not for its opcode. -/
theorem Misses.ne_badOpcode {m m' : Machine} {fault : Fault} (misses : Misses code m op fault m')
    (word : Word) : fault ≠ .badOpcode word := by
  cases misses with
  | other elsewhere =>
    rintro rfl
    cases elsewhere
  | operand _ _ there =>
    rw [there]
    exact Fault.noConfusion
  | target _ _ _ outside => exact ne_badOpcode_of_address outside word

/-- All addresses that the machine holds are among the given ones. -/
structure Aligned (At : Nat → Prop) (m : Machine) : Prop where
  pc : At m.pc
  frames : ∀ frame ∈ m.dump.items, At frame.resume
  closures : m.heap.Enters At

variable {m m' : Machine}

/-- What a step does to the control leads from boundaries to boundaries. -/
theorem Aligned.transfer (aligned : m.Aligned At) (divides : code.Divides At)
    (found : code.fetch? m.pc = some op.word) (transfers : Transfers code m m' op)
    (closures : m'.heap.Enters At) : m'.Aligned At := by
  have next := divides.next aligned.pc found
  cases transfers with
  | onward _ pc _ dump => exact ⟨pc ▸ next, dump ▸ aligned.frames, closures⟩
  | @sel n onZero onNonzero _ _ zero nonzero target _ items =>
    refine ⟨?_, ?_, closures⟩
    · obtain ⟨t, there, isTarget⟩ := divides.branch aligned.pc found zero nonzero n
      exact (divides.address there isTarget).1 _ target
    · rw [items, Array.forall_mem_push]
      exact ⟨next, aligned.frames⟩
  | ap _ callee entry items =>
    refine ⟨entry ▸ aligned.closures.entry callee, ?_, closures⟩
    rw [items, Array.forall_mem_push]
    exact ⟨next, aligned.frames⟩
  | rtn items pc =>
    obtain ⟨resume, frames⟩ := Array.forall_mem_push.1 (items ▸ aligned.frames)
    exact ⟨pc ▸ resume, frames, closures⟩
  | join items pc =>
    obtain ⟨resume, frames⟩ := Array.forall_mem_push.1 (items ▸ aligned.frames)
    exact ⟨pc ▸ resume, frames, closures⟩

/-- A closure that is made enters at an operand. -/
theorem Puts.enters {rest : Array Value} {value : Value} {cells : Array Cell}
    (puts : Puts code m op rest value cells) (aligned : m.Aligned At) (divides : code.Divides At)
    (found : code.fetch? m.pc = some op.word) : (m.heap.append cells).Enters At := by
  refine aligned.closures.append ?_
  cases puts with
  | ldc | ld | arith => simp
  | ldf operand inside | ldrf operand inside =>
    obtain ⟨t, there, isTarget⟩ :=
      divides.target aligned.pc found rfl Nat.zero_lt_one (Nat.le_refl 1) operand
    have entry := (divides.address there isTarget).1 _ inside
    simpa using entry

theorem Completes.enters {result : Option Value} (done : Completes code m op result m')
    (aligned : m.Aligned At) (divides : code.Divides At)
    (found : code.fetch? m.pc = some op.word) : m'.heap.Enters At := by
  cases done with
  | value puts => exact puts.enters aligned divides found
  | ap => exact aligned.closures.append (by simp)
  | halt | sel | rtn | join => exact aligned.closures

/-- At a boundary all operands are there, and the targets among them are boundaries. -/
theorem Misses.onlyAtEnd {fault : Fault} (misses : Misses code m op fault m')
    (aligned : m.Aligned At) (divides : code.Divides At)
    (found : code.fetch? m.pc = some op.word) : fault.OnlyAtEnd code.size := by
  cases misses with
  | other elsewhere => exact Fault.onlyAtEnd_of_isOfCode elsewhere _
  | @operand j fewer missing =>
    have there := divides.operand_ne_none aligned.pc found (j := j + 1) fewer
    rw [Nat.add_right_comm] at missing
    exact absurd missing there
  | @target j word takes fetched operand outside =>
    rw [Nat.add_right_comm] at operand
    obtain ⟨t, there, isTarget⟩ :=
      divides.target aligned.pc found takes (Nat.succ_pos j) fetched operand
    exact (divides.address there isTarget).2 _ outside

/-- A step from boundaries leads to boundaries, and leaves the code only at its end. -/
theorem Aligned.step (aligned : m.Aligned At) (divides : code.Divides At) :
    Ends (fun _ m' => m'.Aligned At) (fun trap _ => trap.fault.OnlyAtEnd code.size)
      (step code m) := by
  refine step_cases (fun op result m' found done => ?_) (fun op fault m' found fails => ?_)
    (fun word found unknown => ?_) fun missing => ?_
  · exact aligned.transfer divides found (transfers_of_completes done)
      (done.enters aligned divides found)
  · exact fails.misses.onlyAtEnd aligned divides found
  · obtain ⟨op, isOp⟩ := divides.instruction aligned.pc (Code.lt_size_of_fetch? found)
    rw [found, Option.some.injEq] at isOp
    rw [isOp, Opcode.ofWord?_word] at unknown
    cases unknown
  · have outside := Array.getElem?_eq_none_iff.1 missing
    have atEnd := divides.bounded aligned.pc
    exact congrArg Nat.cast (Nat.le_antisymm atEnd outside)

/-- So do any number of steps up to the first HALT or trap. -/
theorem Aligned.advance (aligned : m.Aligned At) (divides : code.Divides At) (k : Nat) :
    Ends (fun _ m' => m'.Aligned At) (fun trap _ => trap.fault.OnlyAtEnd code.size)
      (advance code k m) := by
  induction k generalizing m with
  | zero => exact aligned
  | succ k ih =>
    have ends := aligned.step divides
    rcases stepped : Machine.step code m with ⟨_ | value, m'⟩ | ⟨trap, m'⟩
    · rw [stepped] at ends
      rw [advance_succ_of_none stepped]
      exact ih ends
    · rw [stepped] at ends
      rw [advance_succ_of_some stepped]
      exact ends
    · rw [stepped] at ends
      rw [advance_succ_of_error stepped]
      exact ends

theorem Aligned.onlyAtEnd_of_run (aligned : m.Aligned At) (divides : code.Divides At)
    {trap : Trap} (failed : run code m = .error trap m') : trap.fault.OnlyAtEnd code.size := by
  obtain ⟨k, -, ⟨value, m₁, -, ran⟩ | ⟨trap₁, m₁, advanced, ran⟩⟩ := exists_runsWithin code m
  · rw [failed] at ran
    cases ran
  · rw [failed] at ran
    cases ran
    have ends := aligned.advance divides k
    rw [advanced] at ends
    exact ends

theorem aligned_fresh (caps : Capacities) (divides : code.Divides At) :
    (fresh caps).Aligned At where
  pc := divides.start
  frames := by simp [fresh]
  closures := by simp [fresh, Heap.Enters]

end Machine

end Secd
