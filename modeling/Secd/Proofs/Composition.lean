import Secd.Machine.Parts

/-!
What instructions are composed of. An instruction is a sequence of a few parts, and only two of them
look at the code: a word is fetched from it, and an address is checked against its length.

      code       fetch, address            dump    push and pop
      stack      push and pop              heap    extend, capture, captureRec
      machine    jump, enter, count        reads   pc, env and the cells of the heap

A relation between two runs, over different code or in different room, that every part keeps and
that goes through sequences is kept by every instruction. So it is shown part by part, and the
instructions are taken apart here only.
-/

namespace Secd

open Effect (check)

namespace Heap

/-- A binding is looked up in the cells alone. -/
theorem lookupFrom_of_cells {h h' : Heap} (same : h'.cells = h.cells) (index more depth : Nat)
    (env : Env) : h'.lookupFrom index more depth env = h.lookupFrom index more depth env := by
  have link (cell : CellId) : h'.link cell = h.link cell := by simp only [Heap.link, same]
  induction more generalizing depth env with
  | zero => cases env <;> simp only [lookupFrom, link]
  | succ more ih => cases env <;> simp only [lookupFrom, link, ih]

end Heap

namespace Machine

/-- The machines cannot be told apart by what an instruction reads beside its stack and dump. -/
structure ReadsAlike (m m' : Machine) : Prop where
  pc : m'.pc = m.pc
  env : m'.env = m.env
  cells : m'.heap.cells = m.heap.cells

/-- A sequence of parts of instructions. -/
inductive Composed : {α : Type} → (Code → Effect Machine α) → Prop where
  | pure {α : Type} (x : α) : Composed fun _ => (pure x : Effect Machine α)
  | throw {α : Type} (fault : Fault) : Composed fun _ => (throw fault : Effect Machine α)
  | check {α : Type} (r : Except Fault α) : Composed fun _ => (check r : Effect Machine α)
  | fetch : Composed fetch
  | address (target : Word) :
      Composed fun code => (check (code.address target) : Effect Machine Nat)
  | push (value : Value) : Composed fun _ => onStack (Stack.push value)
  | pop : Composed fun _ => onStack Stack.pop
  | popInt : Composed fun _ => onStack Stack.popInt
  | popClosure : Composed fun _ => onStack Stack.popClosure
  | pushFrame (frame : Frame) : Composed fun _ => onDump (Stack.push frame)
  | popBranch : Composed fun _ => onDump Stack.popBranch
  | popCall : Composed fun _ => onDump Stack.popCall
  | extend (value : Value) (env : Env) : Composed fun _ => onHeap (Heap.extend value env)
  | capture (entry : Nat) (env : Env) : Composed fun _ => onHeap (Heap.capture entry env)
  | captureRec (entry : Nat) (env : Env) : Composed fun _ => onHeap (Heap.captureRec entry env)
  | jump (pc : Nat) : Composed fun _ => jump pc
  | enter (env : Env) : Composed fun _ => enter env
  | count : Composed fun _ => modify fun m => { m with steps := m.steps + 1 }
  | read {α : Type} {f : Machine → Code → Effect Machine α}
      (alike : ∀ m m', ReadsAlike m m' → f m' = f m) (rest : ∀ m, Composed (f m)) :
      Composed fun code => get >>= fun m => f m code
  | bind {α β : Type} {a : Code → Effect Machine α} {f : α → Code → Effect Machine β}
      (first : Composed a) (second : ∀ x, Composed (f x)) :
      Composed fun code => a code >>= fun x => f x code

namespace Composed

theorem decode : Composed decode := by
  refine .bind .fetch fun word => ?_
  cases Opcode.ofWord? word with
  | none => exact .throw _
  | some op => exact .bind .count fun _ => .pure op

theorem arith (combine : Word → Word → Word) : Composed fun _ => arith combine :=
  .bind .popInt fun _ => .bind .popInt fun _ => .push _

theorem loadBinding : Composed loadBinding := by
  refine .bind .fetch fun operand => ?_
  cases operand.toIndex? with
  | none => exact .throw _
  | some index =>
    refine .read (fun m m' alike => ?_) fun m => .bind (.check _) fun value => .push value
    have found : m'.heap.lookup index m'.env = m.heap.lookup index m.env := by
      rw [alike.env]
      exact Heap.lookupFrom_of_cells alike.cells ..
    rw [found]

theorem select : Composed select := by
  refine .bind .popInt fun condition => .bind .fetch fun onZero => .bind .fetch fun onNonzero => ?_
  refine .read (fun m m' alike => by rw [alike.pc]) fun m => .bind (.pushFrame _) fun _ => ?_
  exact .bind (.address _) fun target => .jump target

theorem loadClosure {capture : Nat → Env → Effect Heap CellId}
    (captures : ∀ entry env, Composed fun _ => onHeap (capture entry env)) :
    Composed fun code => loadClosure code capture := by
  refine .bind .fetch fun operand => .bind (.address operand) fun entry => ?_
  refine .read (fun m m' alike => by rw [alike.env]) fun m => ?_
  exact .bind (captures entry m.env) fun cell => .push _

theorem apply : Composed fun _ => apply := by
  refine .bind .pop fun argument => .bind .popClosure fun cell => ?_
  refine .read (fun m m' alike => ?_) fun m => .bind (.check _) fun closure => ?_
  · have held : m'.heap.closure cell = m.heap.closure cell := by
      simp only [Heap.closure, alike.cells]
    rw [held, alike.pc, alike.env]
  · refine .bind (.pushFrame _) fun _ => .bind (.extend argument closure.env) fun env => ?_
    exact .bind (.enter env) fun _ => .jump _

theorem ret : Composed fun _ => ret :=
  .bind .popCall fun _ => .bind (.jump _) fun _ => .enter _

theorem exec (op : Opcode) : Composed fun code => exec code op := by
  cases op with
  | halt => exact .bind .pop fun value => .pure (some value)
  | ldc => exact .bind .fetch fun word => .bind (.push (.int word)) fun _ => .pure none
  | ld => exact .bind loadBinding fun _ => .pure none
  | add | sub | mul => exact .bind (arith _) fun _ => .pure none
  | sel => exact .bind select fun _ => .pure none
  | ldf => exact .bind (loadClosure .capture) fun _ => .pure none
  | ldrf => exact .bind (loadClosure .captureRec) fun _ => .pure none
  | ap => exact .bind apply fun _ => .pure none
  | rtn => exact .bind ret fun _ => .pure none
  | join => exact .bind .popBranch fun _ => .bind (.jump _) fun _ => .pure none

theorem instruction : Composed fun code => Machine.decode code >>= Machine.exec code :=
  .bind decode exec

end Composed

end Machine

end Secd
