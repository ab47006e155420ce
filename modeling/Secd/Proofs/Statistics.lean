import Mathlib.Data.Finset.Lattice.Fold
import Mathlib.Data.Nat.Count
import Secd.Proofs.Entries

/-!
What a machine says it has used is what it has used. Its counters are written deep inside the
instructions, at the push, the allocation or the decoding, so each of them has to be right whatever
happens to the rest of the instruction.

The greatest height of a stack is exact because an instruction pushes last. It takes items off, then
puts one on or does not, and so the highest it has been is seen when it has ended:

      heights   ─ 3 ── pop ─ 2 ── pop ─ 1 ── push ─ 2 ─      before and after: 3, 2
      peak        3          3          3            3

How many items an instruction takes and puts, and how many cells, is a table of the opcodes. As long
as no step fails the heights and the cells are the sums over what was executed.
-/

namespace Secd

open Effect

namespace Opcode

/-- How many values an instruction takes off the stack. -/
def pops : Opcode → Nat
  | halt | sel => 1
  | add | sub | mul | ap => 2
  | ldc | ld | ldf | ldrf | rtn | join => 0

/-- How many values an instruction puts on the stack. -/
def pushes : Opcode → Nat
  | ldc | ld | add | sub | mul | ldf | ldrf => 1
  | halt | sel | ap | rtn | join => 0

/-- How many frames an instruction takes off the dump. -/
def closes : Opcode → Nat
  | rtn | join => 1
  | halt | ldc | ld | add | sub | mul | sel | ldf | ldrf | ap => 0

/-- How many frames an instruction puts on the dump. -/
def opens : Opcode → Nat
  | sel | ap => 1
  | halt | ldc | ld | add | sub | mul | ldf | ldrf | rtn | join => 0

/-- How many cells an instruction takes. -/
def cells : Opcode → Nat
  | ldf | ap => 1
  | ldrf => 2
  | halt | ldc | ld | add | sub | mul | sel | rtn | join => 0

end Opcode

/-! ### Stacks -/

namespace Stack

variable {α : Type} {s : Stack α} {rest : Array α}

/-- The greatest height is at least the present one. -/
def Recorded (s : Stack α) : Prop := s.height ≤ s.peak

/-- Of the heights since `s`, the present one is the only one that may be the greatest ever. -/
def Tracks (s s' : Stack α) : Prop := s'.peak = max s.peak s'.height

theorem Recorded.tracks (recorded : s.Recorded) : s.Tracks s := (Nat.max_eq_left recorded).symm

theorem Recorded.tracks_withItems (recorded : s.Recorded) (fewer : rest.size ≤ s.height) :
    s.Tracks (s.withItems rest) :=
  (Nat.max_eq_left (Nat.le_trans fewer recorded)).symm

theorem tracks_pushed (s : Stack α) (rest : Array α) (a : α) :
    s.Tracks ((s.withItems rest).pushed a) := by
  simp [Tracks, pushed, withItems, height]

theorem Tracks.recorded {s' : Stack α} (tracks : s.Tracks s') : s'.Recorded := by
  rw [Recorded, tracks]
  exact Nat.le_max_right _ _

theorem height_of_push {a : α} (items : s.items = rest.push a) : s.height = rest.size + 1 := by
  rw [height, items, Array.size_push]

end Stack

namespace Machine

variable {code : Code} {m m' : Machine} {op : Opcode}

/-! ### What an instruction does to the counters -/

/-- Both stacks know how high they have been. -/
structure Recorded (m : Machine) : Prop where
  stack : m.stack.Recorded
  dump : m.dump.Recorded

/-- However an instruction ends, it was counted, and the stacks have kept track of it. -/
structure Tracks (m m' : Machine) : Prop where
  steps : m'.steps = m.steps + 1
  stack : m.stack.Tracks m'.stack
  dump : m.dump.Tracks m'.dump

/-- An instruction has taken and put as much as its opcode says. -/
structure Balances (op : Opcode) (m m' : Machine) : Prop where
  stack : m'.stack.height + op.pops = m.stack.height + op.pushes
  dump : m'.dump.height + op.closes = m.dump.height + op.opens
  heap : m'.heap.size = m.heap.size + op.cells

/-- Whatever is done with the stack, its height is below or at the greatest. -/
theorem Recorded.tracks_past (recorded : m.Recorded) (n : Nat) {rest : Array Value}
    (stands : m.stack.StandsOn rest) : m.Tracks (m.past n rest) :=
  ⟨rfl, recorded.stack.tracks_withItems stands.size_le, recorded.dump.tracks⟩

/-- RTN and JOIN take a frame off, of whatever kind it is, and leave the rest alone. -/
theorem Recorded.tracks_closed (recorded : m.Recorded) (pc : Nat) (env : Env)
    {rest : Array Frame} {frame : Frame} (items : m.dump.items = rest.push frame) :
    m.Tracks { m.decoded with pc, env, dump := m.dump.withItems rest } :=
  ⟨rfl, recorded.stack.tracks,
    recorded.dump.tracks_withItems (Stack.standsOn_of_push items).size_le⟩

/-- A frame is put on when all values have been taken off. -/
theorem Recorded.tracks_opened (recorded : m.Recorded) (n : Nat) {rest : Array Value}
    (stands : m.stack.StandsOn rest) (frame : Frame) :
    m.Tracks { m.past n rest with dump := m.dump.pushed frame } :=
  ⟨rfl, recorded.stack.tracks_withItems stands.size_le, m.dump.tracks_pushed m.dump.items frame⟩

theorem Completes.tracks {result : Option Value} (done : Completes code m op result m')
    (recorded : m.Recorded) : m.Tracks m' := by
  cases done with
  | value => exact ⟨rfl, m.stack.tracks_pushed _ _, recorded.dump.tracks⟩
  | halt items => exact recorded.tracks_past 0 (Stack.standsOn_of_push items)
  | sel condition =>
    obtain ⟨steps, stack, dump⟩ := recorded.tracks_opened 2 (Stack.standsOn_of_push condition) _
    exact ⟨steps, stack, dump⟩
  | ap operands =>
    obtain ⟨steps, stack, dump⟩ :=
      recorded.tracks_opened 0 (Stack.standsOn_of_push_push operands) _
    exact ⟨steps, stack, dump⟩
  | rtn items => exact recorded.tracks_closed _ _ items
  | join items => exact recorded.tracks_closed _ _ items

theorem Fails.tracks {fault : Fault} (fails : Fails code m op fault m')
    (recorded : m.Recorded) : m.Tracks m' := by
  cases fails with
  | @early _ n _ _ _ stands => exact recorded.tracks_past n stands
  | sel condition => exact recorded.tracks_opened 2 (Stack.standsOn_of_push condition) _
  | ap stands => exact recorded.tracks_opened 0 stands _
  | closure | pending => exact ⟨rfl, recorded.stack.tracks, recorded.dump.tracks⟩
  | frameKind items => exact recorded.tracks_closed _ _ items

/-- The value that an instruction comes to is the only one that it puts. -/
theorem Puts.balances {rest : Array Value} {value : Value} {cells : Array Cell}
    (puts : Puts code m op rest value cells) :
    rest.size + 1 + op.pops = m.stack.height + op.pushes ∧ op.closes = 0 ∧ op.opens = 0 ∧
      cells.size = op.cells := by
  cases puts with
  | ldc | ld | ldf | ldrf => exact ⟨rfl, rfl, rfl, rfl⟩
  | arith isArith items =>
    have height : m.stack.height = rest.size + 2 := by simp [Stack.height, items]
    rw [height]
    cases op with
    | add | sub | mul => exact ⟨rfl, rfl, rfl, rfl⟩
    | halt | ldc | ld | sel | ldf | ldrf | ap | rtn | join => cases isArith

theorem Completes.balances {result : Option Value} (done : Completes code m op result m') :
    Balances op m m' := by
  cases done with
  | @value op rest value cells puts =>
    obtain ⟨stack, closes, opens, size⟩ := puts.balances
    refine ⟨?_, ?_, ?_⟩
    · rw [← stack]
      exact congrArg (· + op.pops) (Array.size_push value)
    · rw [closes, opens]
      rfl
    · rw [← size]
      exact Array.size_append
  | halt items => exact ⟨(Stack.height_of_push items).symm, rfl, rfl⟩
  | sel condition => exact ⟨(Stack.height_of_push condition).symm, Array.size_push _, rfl⟩
  | @ap rest argument cell closure operands =>
    have height : m.stack.height = rest.size + 2 := by simp [Stack.height, operands]
    exact ⟨height.symm, Array.size_push _, Array.size_push _⟩
  | rtn items => exact ⟨rfl, (Stack.height_of_push items).symm, rfl⟩
  | join items => exact ⟨rfl, (Stack.height_of_push items).symm, rfl⟩

/-! ### Steps -/

/-- A step traps before it has an instruction: the word that it fetches encodes none, or there is no
word. -/
def undecoded (code : Code) (m : Machine) : Bool :=
  match step code m with
  | .error ⟨_, .badOpcode _⟩ _ => true
  | .error ⟨_, .outOfCode _ _⟩ _ => (code.fetch? m.pc).isNone
  | _ => false

theorem step_of_missing (missing : code.fetch? m.pc = none) :
    step code m = .error ⟨m.pc, .outOfCode m.pc code.size⟩ m := by
  have failed : (decode code >>= exec code) m = .error (.outOfCode m.pc code.size) m :=
    bind_eq_error_iff.2 (.inl (bind_eq_error_iff.2 (.inl (fetch_of_none missing))))
  rw [step_eq, failed]
  rfl

theorem step_of_unknown {word : Word} (found : code.fetch? m.pc = some word)
    (unknown : Opcode.ofWord? word = none) :
    step code m = .error ⟨m.pc, .badOpcode word⟩ { m with pc := m.pc + 1 } := by
  have failed : (decode code >>= exec code) m =
      .error (.badOpcode word) { m with pc := m.pc + 1 } := by
    refine bind_eq_error_iff.2 (.inl (bind_eq_error_iff.2 (.inr ⟨_, _, fetch_of_some found, ?_⟩)))
    rw [unknown]
    rfl
  rw [step_eq, failed]
  rfl

/-- A step that is not stopped before its instruction is one at an opcode. -/
theorem undecoded_eq_false_iff :
    undecoded code m = false ↔ ∃ op : Opcode, code.fetch? m.pc = some op.word := by
  constructor
  · intro decoded
    cases found : code.fetch? m.pc with
    | none =>
      rw [undecoded, step_of_missing found, found] at decoded
      cases decoded
    | some word =>
      cases isOpcode : Opcode.ofWord? word with
      | none =>
        rw [undecoded, step_of_unknown found isOpcode] at decoded
        cases decoded
      | some op => exact ⟨op, by rw [Opcode.ofWord?_eq_some_iff.1 isOpcode]⟩
  · rintro ⟨op, found⟩
    have other : Ends (fun _ _ => True) (fun trap _ => ∀ word, trap.fault ≠ .badOpcode word)
        (step code m) :=
      ends_step_of_found found ((ends_exec found).imp (fun _ _ _ => trivial) fun _ _ fails =>
        fails.misses.ne_badOpcode)
    unfold undecoded
    split
    · rename_i trapped
      rw [trapped] at other
      exact absurd rfl (other _)
    · rw [found]
      rfl
    · rfl

/-- Without an instruction a step leaves all counters alone. -/
theorem next_of_undecoded (stopped : undecoded code m = true) :
    (next code m).steps = m.steps ∧ (next code m).stack = m.stack ∧
      (next code m).dump = m.dump := by
  cases found : code.fetch? m.pc with
  | none =>
    rw [next, step_of_missing found]
    exact ⟨rfl, rfl, rfl⟩
  | some word =>
    cases isOpcode : Opcode.ofWord? word with
    | none =>
      rw [next, step_of_unknown found isOpcode]
      exact ⟨rfl, rfl, rfl⟩
    | some op =>
      rw [Opcode.ofWord?_eq_some_iff.1 isOpcode] at found
      rw [undecoded_eq_false_iff.2 ⟨op, found⟩] at stopped
      cases stopped

theorem tracks_next (recorded : m.Recorded) (decoded : undecoded code m = false) :
    m.Tracks (next code m) := by
  obtain ⟨op, found⟩ := undecoded_eq_false_iff.1 decoded
  exact next_of_ends (ends_step_of_found found ((ends_exec found).imp
    (fun _ _ done => done.tracks recorded) fun _ _ fails => fails.tracks recorded))

/-- However a step ends, it is counted if it has an instruction, and the stacks keep track. -/
theorem counters_next (recorded : m.Recorded) (code : Code) :
    (next code m).steps = m.steps + (if undecoded code m = false then 1 else 0) ∧
      m.stack.Tracks (next code m).stack ∧ m.dump.Tracks (next code m).dump := by
  cases stopped : undecoded code m with
  | false =>
    obtain ⟨steps, stack, dump⟩ := tracks_next recorded stopped
    exact ⟨steps, stack, dump⟩
  | true =>
    obtain ⟨steps, stack, dump⟩ := next_of_undecoded stopped
    rw [steps, stack, dump]
    exact ⟨rfl, recorded.stack.tracks, recorded.dump.tracks⟩

/-- A step that succeeds has taken and put what its opcode says. -/
theorem balances_of_step {result : Option Value} (stepped : step code m = .ok result m') :
    ∃ op : Opcode, code.fetch? m.pc = some op.word ∧ Balances op m m' := by
  obtain ⟨op, found, done⟩ := completes_of_step stepped
  exact ⟨op, found, done.balances⟩

theorem exists_step_eq_ok (succeeds : Ends (fun _ _ => True) (fun _ _ => False) (step code m)) :
    ∃ result, step code m = .ok result (next code m) := by
  unfold next
  cases stepped : step code m with
  | ok result m' => exact ⟨result, rfl⟩
  | error trap m' =>
    rw [stepped] at succeeds
    exact succeeds.elim

/-! ### Any number of steps -/

/-- How many of the first `n` steps, past whatever traps, are at the opcode. -/
def executions (code : Code) (m : Machine) (op : Opcode) (n : Nat) : Nat :=
  Nat.count (fun i => code.fetch? ((next code)^[i] m).pc = some op.word) n

theorem executions_succ {here : Opcode} {n : Nat}
    (found : code.fetch? ((next code)^[n] m).pc = some here.word) (op : Opcode) :
    executions code m op (n + 1) = executions code m op n + if here = op then 1 else 0 := by
  have same : code.fetch? ((next code)^[n] m).pc = some op.word ↔ here = op := by
    rw [found, Option.some.injEq]
    exact ⟨Opcode.word_inj, congrArg _⟩
  rw [executions, Nat.count_succ, executions]
  simp only [same]

theorem recorded_fresh (caps : Capacities) : (fresh caps).Recorded :=
  ⟨Nat.le_refl 0, Nat.le_refl 0⟩

/-- The counters after `n` steps from a machine that has used nothing yet. -/
structure Exact (code : Code) (m : Machine) (n : Nat) : Prop where
  steps : ((next code)^[n] m).steps =
    Nat.count (fun i => undecoded code ((next code)^[i] m) = false) n
  stack : ((next code)^[n] m).stack.peak =
    (Finset.range (n + 1)).sup fun i => ((next code)^[i] m).stack.height
  dump : ((next code)^[n] m).dump.peak =
    (Finset.range (n + 1)).sup fun i => ((next code)^[i] m).dump.height

theorem exact_fresh (code : Code) (caps : Capacities) (n : Nat) :
    ((next code)^[n] (fresh caps)).Recorded ∧ Exact code (fresh caps) n := by
  induction n with
  | zero => exact ⟨recorded_fresh caps, rfl, rfl, rfl⟩
  | succ n ih =>
    obtain ⟨recorded, exact⟩ := ih
    obtain ⟨steps, stack, dump⟩ := counters_next recorded code
    rw [← Function.iterate_succ_apply' (next code)] at steps stack dump
    refine ⟨⟨stack.recorded, dump.recorded⟩, ?_, ?_, ?_⟩
    · rw [steps, exact.steps, Nat.count_succ]
    · rw [stack, exact.stack, Finset.range_add_one (n := n + 1), Finset.sup_insert, max_comm]
    · rw [dump, exact.dump, Finset.range_add_one (n := n + 1), Finset.sup_insert, max_comm]

/-- Heights and cells are what the instructions add up to, if so many of each were executed. -/
structure Sums (ran : Opcode → Int) (m : Machine) : Prop where
  heap : (m.heap.size : Int) = ran .ldf + 2 * ran .ldrf + ran .ap
  dump : (m.dump.height : Int) = ran .sel + ran .ap - ran .join - ran .rtn
  stack : (m.stack.height : Int) =
    ran .ldc + ran .ld + ran .ldf + ran .ldrf - ran .add - ran .sub - ran .mul - ran .sel -
      ran .halt - 2 * ran .ap

/-- One more instruction adds what its opcode says. -/
theorem Sums.step {ran ran' : Opcode → Int} (sums : Sums ran m) (balances : Balances op m m')
    (count : ∀ other, ran' other = ran other + if op = other then 1 else 0) : Sums ran' m' := by
  obtain ⟨heap, dump, stack⟩ := sums
  obtain ⟨stack', dump', heap'⟩ := balances
  cases op <;>
    simp only [Opcode.pops, Opcode.pushes, Opcode.closes, Opcode.opens, Opcode.cells]
      at stack' dump' heap' <;>
    constructor <;> simp only [count, reduceCtorEq, if_true, if_false] <;> omega

theorem sums_fresh {caps : Capacities} (n : Nat)
    (succeed : ∀ i < n, ∃ result, step code ((next code)^[i] (fresh caps)) =
      .ok result ((next code)^[i + 1] (fresh caps))) :
    Sums (fun op => executions code (fresh caps) op n) ((next code)^[n] (fresh caps)) := by
  induction n with
  | zero => exact ⟨rfl, rfl, rfl⟩
  | succ n ih =>
    obtain ⟨result, stepped⟩ := succeed n (Nat.lt_succ_self n)
    obtain ⟨here, found, balances⟩ := balances_of_step stepped
    refine (ih fun i earlier => succeed i (Nat.lt_succ_of_lt earlier)).step balances fun op => ?_
    rw [executions_succ found]
    split <;> rfl

/-- However often a machine is stepped over whatever code, also past traps and HALT, its statistics
are exact: the steps that had an instruction, the greatest heights between steps, the cells in use.
If no step fails, heights and cells are the sums over what was executed. -/
theorem stats_iterate_next {caps : Capacities} (started : init? caps = .ok m) (code : Code)
    (n : Nat) :
    ((next code)^[n] m).stats = {
        steps := Nat.count (fun i => undecoded code ((next code)^[i] m) = false) n
        peakStack := (Finset.range (n + 1)).sup fun i => ((next code)^[i] m).stack.height
        peakDump := (Finset.range (n + 1)).sup fun i => ((next code)^[i] m).dump.height
        heapCells := ((next code)^[n] m).heap.size } ∧
      ((∀ i < n, ∃ result, step code ((next code)^[i] m) = .ok result ((next code)^[i + 1] m)) →
        Sums (fun op => executions code m op n) ((next code)^[n] m)) := by
  obtain rfl := init?_eq_ok started
  obtain ⟨steps, stack, dump⟩ := (exact_fresh code caps n).2
  refine ⟨?_, sums_fresh n⟩
  rw [stats, steps, stack, dump]

/-- A recursive function that returns its argument: six steps succeed and make three cells. Of the
next three, all of which trap, the last one comes to the end of the code and is not counted. -/
theorem stats_past_halt :
    let code : Code := ⟨16, #[8, 6, 1, 0, 9, 0, 2, 0, 10]⟩
    ∃ m, init? {} = .ok m ∧
      (∀ i < 6, ∃ result, step code ((next code)^[i] m) = .ok result ((next code)^[i + 1] m)) ∧
      Sums (fun op => executions code m op 6) ((next code)^[6] m) ∧
      ((next code)^[6] m).heap.size = 3 ∧ executions code m .ldrf 6 = 1 ∧
      ((next code)^[9] m).stats = ⟨8, 2, 1, 3⟩ ∧
      Nat.count (fun i => undecoded code ((next code)^[i] m) = false) 9 = 8 := by
  intro code
  have started : init? {} = .ok (fresh {}) := rfl
  have ends : ∀ i < 6, Ends (fun _ _ => True) (fun _ _ => False)
      (step code ((next code)^[i] (fresh {}))) := by decide +kernel
  have succeed : ∀ i < 6, ∃ result, step code ((next code)^[i] (fresh {})) =
      .ok result ((next code)^[i + 1] (fresh {})) := by
    intro i earlier
    rw [Function.iterate_succ_apply']
    exact exists_step_eq_ok (ends i earlier)
  have used : ((next code)^[9] (fresh {})).stats = ⟨8, 2, 1, 3⟩ := by decide +kernel
  have counted := (stats_iterate_next started code 9).1
  rw [used] at counted
  refine ⟨fresh {}, started, succeed, (stats_iterate_next started code 6).2 succeed, ?_, ?_,
    used, ?_⟩
  · decide +kernel
  · decide +kernel
  · exact (Stats.mk.inj counted).1.symm

end Machine

end Secd
