import Secd.Proofs.Steps

/-!
No handle of a machine ever leads astray. Environments and closures are named by cells, and a name
could point at a missing cell, at a cell of another kind or at a binding whose value is still to
come. None of this happens: the four places that hold handles only hold live ones.

      env register, call frames, closure cells, tails of bindings  ──▶  empty, or a binding
      stack, heads of bindings                                     ──▶  integers, or a closure cell

The invariant has to hold after every end of a step, not only after the good ones. A fault can leave
a popped argument, a pushed frame, a closure that no value names, or the pending cell of a recursive
closure for which one cell too few was free. That pending cell is the one to watch: nothing names it
yet when the fault comes, and so nothing ever will.
-/

namespace Secd

open Effect

/-! ### Live handles -/

namespace Heap

/-- An environment is empty or starts with a binding. -/
def LiveEnv (h : Heap) : Env → Prop
  | none => True
  | some cell => ∃ head tail, h.cells[cell]? = some (.binding head tail)

/-- A value is an integer or names a closure. -/
def LiveValue (h : Heap) : Value → Prop
  | .int _ => True
  | .closure cell => ∃ closure, h.cells[cell]? = some (.closure closure)

/-- The environment that a frame saves, if any, is live. -/
def LiveFrame (h : Heap) : Frame → Prop
  | .branch _ => True
  | .call _ env => h.LiveEnv env

/-- The handles in a cell are live. -/
def LiveCell (h : Heap) : Cell → Prop
  | .binding head tail => h.LiveValue head ∧ h.LiveEnv tail
  | .pending tail => h.LiveEnv tail
  | .closure closure => h.LiveEnv closure.env

variable {h : Heap}

theorem LiveEnv.append {env : Env} (live : h.LiveEnv env) (cells : Array Cell) :
    (h.append cells).LiveEnv env := by
  cases env with
  | none => trivial
  | some cell =>
    obtain ⟨head, tail, found⟩ := live
    exact ⟨head, tail, getElem?_append cells found⟩

theorem LiveValue.append {value : Value} (live : h.LiveValue value) (cells : Array Cell) :
    (h.append cells).LiveValue value := by
  cases value with
  | int n => trivial
  | closure cell =>
    obtain ⟨closure, found⟩ := live
    exact ⟨closure, getElem?_append cells found⟩

theorem LiveFrame.append {frame : Frame} (live : h.LiveFrame frame) (cells : Array Cell) :
    (h.append cells).LiveFrame frame := by
  cases frame with
  | branch resume => trivial
  | call resume env => exact LiveEnv.append live cells

theorem LiveCell.append {content : Cell} (live : h.LiveCell content) (cells : Array Cell) :
    (h.append cells).LiveCell content := by
  cases content with
  | binding head tail => exact ⟨live.1.append cells, live.2.append cells⟩
  | pending tail => exact LiveEnv.append live cells
  | closure closure => exact LiveEnv.append live cells

/-- In a heap of live cells a link of a live environment is a binding of a live value. -/
theorem LiveEnv.link {cell : CellId} (cells : ∀ content ∈ h.cells, h.LiveCell content)
    (live : h.LiveEnv (some cell)) :
    ∃ head tail, h.link cell = .ok ⟨some head, tail⟩ ∧ h.LiveValue head ∧ h.LiveEnv tail := by
  obtain ⟨head, tail, found⟩ := live
  refine ⟨head, tail, ?_, cells _ (Array.mem_of_getElem? found)⟩
  rw [Heap.link, found]

/-- Looking up a live environment gives a live value or finds too few bindings. -/
theorem LiveEnv.lookupFrom (cells : ∀ content ∈ h.cells, h.LiveCell content) (index more : Nat) :
    ∀ (depth : Nat) {env : Env}, h.LiveEnv env →
      (∃ value, h.lookupFrom index more depth env = .ok value ∧ h.LiveValue value) ∨
        ∃ links, h.lookupFrom index more depth env = .error (.unbound index links) := by
  induction more with
  | zero =>
    intro depth env live
    cases env with
    | none => exact .inr ⟨depth, rfl⟩
    | some cell =>
      obtain ⟨head, tail, found, liveHead, -⟩ := live.link cells
      exact .inl ⟨head, by rw [Heap.lookupFrom, found], liveHead⟩
  | succ more ih =>
    intro depth env live
    cases env with
    | none => exact .inr ⟨depth, rfl⟩
    | some cell =>
      obtain ⟨head, tail, found, -, liveTail⟩ := live.link cells
      simp only [Heap.lookupFrom, found]
      exact ih (depth + 1) liveTail

end Heap

/-- A fault that no program can be blamed for: a handle that leads astray, room that cannot be set
aside, or trouble with the store that holds the code. -/
def Fault.isInternal : Fault → Bool
  | .dangling _ | .cellKind _ _ _ | .untied _ | .unreservable _ _ => true
  | .exhausted .code _ | .underflow .code => true
  | _ => false

namespace Machine

/-- Every handle that the machine holds is live. -/
structure Sound (m : Machine) : Prop where
  env : m.heap.LiveEnv m.env
  stack : ∀ value ∈ m.stack.items, m.heap.LiveValue value
  dump : ∀ frame ∈ m.dump.items, m.heap.LiveFrame frame
  cells : ∀ content ∈ m.heap.cells, m.heap.LiveCell content
  stackName : m.stack.segment = .stack
  dumpName : m.dump.segment = .dump

/-- How an instruction may fail: all handles are still live, and the fault is the program's. -/
def Blameless (fault : Fault) (m : Machine) : Prop := m.Sound ∧ fault.isInternal = false

variable {m : Machine} {code : Code}

/-! ### The parts keep handles live -/

theorem Sound.withStack {s : Stack Value} (sound : m.Sound) (name : s.segment = .stack)
    (live : ∀ value ∈ s.items, m.heap.LiveValue value) : Sound { m with stack := s } :=
  { sound with stack := live, stackName := name }

theorem Sound.withDump {d : Stack Frame} (sound : m.Sound) (name : d.segment = .dump)
    (live : ∀ frame ∈ d.items, m.heap.LiveFrame frame) : Sound { m with dump := d } :=
  { sound with dump := live, dumpName := name }

theorem Sound.withCells {cells : Array Cell} (sound : m.Sound)
    (live : ∀ content ∈ cells, (m.heap.append cells).LiveCell content) :
    Sound { m with heap := m.heap.append cells } where
  env := sound.env.append cells
  stack := fun value mem => (sound.stack value mem).append cells
  dump := fun frame mem => (sound.dump frame mem).append cells
  cells := by
    intro content mem
    rcases Array.mem_append.1 mem with old | new
    · exact (sound.cells content old).append cells
    · exact live content new
  stackName := sound.stackName
  dumpName := sound.dumpName

theorem Sound.push {value : Value} (sound : m.Sound) (live : m.heap.LiveValue value) :
    Sound { m with stack := m.stack.pushed value } := by
  refine sound.withStack sound.stackName fun other mem => ?_
  rcases Array.mem_push.1 mem with old | rfl
  · exact sound.stack other old
  · exact live

theorem Sound.pushFrame {frame : Frame} (sound : m.Sound) (live : m.heap.LiveFrame frame) :
    Sound { m with dump := m.dump.pushed frame } := by
  refine sound.withDump sound.dumpName fun other mem => ?_
  rcases Array.mem_push.1 mem with old | rfl
  · exact sound.dump other old
  · exact live

/-- The topmost frame is live, and so is the rest of the dump. -/
theorem Sound.popFrame {rest : Array Frame} {frame : Frame} (sound : m.Sound)
    (items : m.dump.items = rest.push frame) :
    Sound { m with dump := m.dump.withItems rest } ∧ m.heap.LiveFrame frame := by
  have live := sound.dump
  rw [items] at live
  exact ⟨sound.withDump sound.dumpName fun other mem =>
    live other (Array.mem_push_of_mem frame mem), live frame Array.mem_push_self⟩

/-- What is read and what is taken off the stack leaves no handle astray. -/
theorem Sound.past {rest : Array Value} (sound : m.Sound) (n : Nat)
    (stands : m.stack.StandsOn rest) : (m.past n rest).Sound :=
  { sound with stack := fun value mem => sound.stack value (stands.mem mem) }

theorem Sound.decoded (sound : m.Sound) : m.decoded.Sound := { sound with }

/-- The environment of a live closure is live. -/
theorem Sound.closureEnv {cell : CellId} {closure : Closure} (sound : m.Sound)
    (held : m.heap.closure cell = .ok closure) : m.heap.LiveEnv closure.env :=
  sound.cells (.closure closure) (Heap.mem_of_closure held)

/-! ### The instructions keep handles live -/

/-- The code addresses that an instruction takes from the code never break the machine. -/
theorem isInternal_of_address {word : Word} {fault : Fault}
    (outside : code.address word = .error fault) : fault.isInternal = false := by
  unfold Code.address at outside
  split at outside
  · split at outside
    · cases outside
    · cases outside
      rfl
  · cases outside
    rfl

/-- A lookup in the environment gives a live value, or the index is the program's mistake. -/
theorem Sound.lookup (sound : m.Sound) (index : Nat) :
    (∃ value, m.heap.lookup index m.env = .ok value ∧ m.heap.LiveValue value) ∨
      ∃ links, m.heap.lookup index m.env = .error (.unbound index links) :=
  sound.env.lookupFrom sound.cells index index 0

/-- The two cells of a recursive closure name each other, and both are there when one is named. -/
theorem Puts.live {op : Opcode} {rest : Array Value} {value : Value} {cells : Array Cell}
    (puts : Puts code m op rest value cells) (sound : m.Sound) :
    (m.heap.append cells).LiveValue value ∧
      ∀ content ∈ cells, (m.heap.append cells).LiveCell content := by
  cases puts with
  | ldc | arith => exact ⟨trivial, by simp⟩
  | @ld _ index _ _ _ found =>
    refine ⟨?_, by simp⟩
    rcases sound.lookup index with ⟨_, found', live⟩ | ⟨_, missing⟩
    · rw [found] at found'
      cases found'
      exact live.append #[]
    · rw [found] at missing
      cases missing
  | @ldf _ entry =>
    refine ⟨⟨⟨entry, m.env⟩, Heap.getElem?_append_new _ 0⟩, fun content mem => ?_⟩
    obtain rfl := Array.mem_singleton.1 mem
    exact sound.env.append _
  | @ldrf _ entry =>
    have live : (m.heap.append #[.binding (.closure (m.heap.size + 1)) m.env,
        .closure ⟨entry, some m.heap.size⟩]).LiveValue (.closure (m.heap.size + 1)) :=
      ⟨⟨entry, some m.heap.size⟩, Heap.getElem?_append_new _ 1⟩
    refine ⟨live, fun content mem => ?_⟩
    simp only [List.mem_toArray, List.mem_cons, List.not_mem_nil, or_false] at mem
    rcases mem with rfl | rfl
    · exact ⟨live, sound.env.append _⟩
    · exact ⟨.closure (m.heap.size + 1), m.env, Heap.getElem?_append_new _ 0⟩

theorem Completes.sound {op : Opcode} {result : Option Value} {m' : Machine}
    (done : Completes code m op result m') (sound : m.Sound) : m'.Sound := by
  cases done with
  | @value op rest value cells puts room =>
    obtain ⟨live, liveCells⟩ := puts.live sound
    exact ((sound.past op.operandCount puts.standsOn).withCells liveCells).push live
  | halt items => exact sound.past 0 (Stack.standsOn_of_push items)
  | sel condition zero nonzero room inside =>
    have live : m.heap.LiveFrame (.branch (m.pc + 3)) := trivial
    exact { (sound.past 2 (Stack.standsOn_of_push condition)).pushFrame live with }
  | @ap rest argument cell closure operands callee room =>
    have liveFrame : m.heap.LiveFrame (.call (m.pc + 1) m.env) := sound.env
    have liveArgument : m.heap.LiveValue argument := sound.stack argument (by simp [operands])
    have liveEnv : m.heap.LiveEnv closure.env := sound.closureEnv callee
    have liveCells : ∀ content ∈ #[Cell.binding argument closure.env],
        (m.heap.append #[.binding argument closure.env]).LiveCell content := by
      intro content mem
      obtain rfl := Array.mem_singleton.1 mem
      exact ⟨liveArgument.append _, liveEnv.append _⟩
    have sound' := (sound.past 0 (Stack.standsOn_of_push_push operands)).pushFrame liveFrame
    exact { sound'.withCells liveCells with
      env := ⟨argument, closure.env, Heap.getElem?_append_new _ 0⟩ }
  | rtn items =>
    obtain ⟨sound', live⟩ := sound.decoded.popFrame items
    exact { sound' with env := live }
  | join items => exact { (sound.decoded.popFrame items).1 with }

/-- An instruction stops for a reason that the program gave. -/
theorem Stops.blameless {op : Opcode} {n : Nat} {rest : Array Value} {fault : Fault}
    (stops : Stops code m op n rest fault) (sound : m.Sound) : fault.isInternal = false := by
  cases stops with
  | stackEmpty | stackFull => rw [sound.stackName]; rfl
  | dumpEmpty | dumpFull => rw [sound.dumpName]; rfl
  | missing | valueKind | operand | heapFull => rfl
  | @binding index _ missing =>
    rcases sound.lookup index with ⟨value, found, -⟩ | ⟨links, unbound⟩
    · rw [missing] at found
      cases found
    · rw [missing] at unbound
      cases unbound
      rfl
  | callee held missing =>
    obtain ⟨closure, found⟩ := sound.stack _ held
    rw [Heap.closure, found] at missing
    cases missing
  | target _ _ outside => exact isInternal_of_address outside

/-- How an instruction may fail: all handles are still live, and the fault is the program's. -/
theorem Fails.blameless {op : Opcode} {fault : Fault} {m' : Machine}
    (fails : Fails code m op fault m') (sound : m.Sound) : Blameless fault m' := by
  cases fails with
  | @early op n rest _ _ stands stops => exact ⟨sound.past n stands, stops.blameless sound⟩
  | sel condition _ _ outside =>
    have live : m.heap.LiveFrame (.branch (m.pc + 3)) := trivial
    exact ⟨(sound.past 2 (Stack.standsOn_of_push condition)).pushFrame live,
      isInternal_of_address outside⟩
  | ap stands =>
    have live : m.heap.LiveFrame (.call (m.pc + 1) m.env) := sound.env
    exact ⟨(sound.past 0 stands).pushFrame live, rfl⟩
  | closure puts =>
    rw [sound.stackName]
    exact ⟨(sound.past 1 m.stack.standsOn_refl).withCells (puts.live sound).2, rfl⟩
  | pending =>
    have live : ∀ content ∈ #[Cell.pending m.env],
        (m.heap.append #[.pending m.env]).LiveCell content := by
      intro content mem
      obtain rfl := Array.mem_singleton.1 mem
      exact sound.env.append _
    exact ⟨(sound.past 1 m.stack.standsOn_refl).withCells live, rfl⟩
  | frameKind items => exact ⟨(sound.decoded.popFrame items).1, rfl⟩

/-- A step from live handles ends with live handles, and if in a fault then in the program's. -/
theorem Sound.step (sound : m.Sound) :
    Ends (fun _ m' => m'.Sound) (fun trap m' => Blameless trap.fault m') (step code m) :=
  step_cases (fun _ _ _ _ done => done.sound sound) (fun _ _ _ _ fails => fails.blameless sound)
    (fun _ _ _ => ⟨{ sound with }, rfl⟩) fun _ => ⟨sound, rfl⟩

/-! ### Every machine that is ever reached -/

/-- A machine that holds nothing yet holds no handle. -/
theorem sound_of_load {words : Array Word} {caps : Capacities}
    (loaded : load? words caps = .ok (code, m)) : m.Sound := by
  obtain ⟨-, rfl⟩ := load?_eq_ok loaded
  exact ⟨trivial, by simp [fresh], by simp [fresh], by simp [fresh], rfl, rfl⟩

/-- However often a loaded machine is stepped, also past traps and HALT, all its handles are live,
and no step ends in a fault that is not the program's. -/
theorem sound_iterate_next {words : Array Word} {caps : Capacities}
    (loaded : load? words caps = .ok (code, m)) (n : Nat) :
    ((next code)^[n] m).Sound ∧ ∀ trap m', Machine.step code ((next code)^[n] m) = .error trap m' →
      trap.fault.isInternal = false := by
  have sound : ((next code)^[n] m).Sound :=
    iterate_next (fun _ h => h.step.imp (fun _ _ h' => h') fun _ _ h' => h'.1) n
      (sound_of_load loaded)
  refine ⟨sound, fun trap m' failed => ?_⟩
  have ended : Ends _ (fun trap m' => Blameless trap.fault m')
      (Machine.step code ((next code)^[n] m)) := sound.step
  rw [failed] at ended
  exact ended.2

/-- With one free cell, LDRF leaves a pending cell behind; stepping on from there does no harm. -/
theorem sound_after_half_a_recursive_closure :
    ∃ code m, load? #[8, 0] { heap := 1 } = .ok (code, m) ∧
      (next code m).heap.cells = #[.pending none] ∧ ((next code)^[5] m).Sound := by
  have loaded : load? #[8, 0] { heap := 1 } =
    .ok (⟨65536, #[8, 0]⟩, fresh { heap := 1 }) := rfl
  exact ⟨_, _, loaded, rfl, (sound_iterate_next loaded 5).1⟩

end Machine

end Secd
