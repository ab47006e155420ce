import Secd.Proofs.Control
import Secd.Proofs.Evaluation
import Secd.Proofs.Room

/-!
What an expression costs. Beside its value an expression has a number of steps, greatest heights of
the stack and of the dump above where they were, and a number of cells, and the machine spends
exactly that. The parts of an expression start at different heights:

      f a AP     stack   0 ── f ─▶ 1 ── a ─▶ 2 ── AP ─▶ 0 ── body ─▶ 1
                 dump    0         0         0          1           1 ── RTN ─▶ 0

So the cost of a whole is found from those of its parts, put at their heights. A run to a HALT then
ends in the same way under all capacities that the cost fits into, and in a full store under all
others.
-/

namespace Secd

open Effect
open Heap (Denotes DenotesEnv)

/-- What a stretch of a run costs: the steps, the greatest heights that the stack and the dump are
raised to, and the cells. -/
structure Cost where
  steps : Nat
  stack : Nat
  dump : Nat
  cells : Nat
  deriving DecidableEq

namespace Cost

/-- The cost of one stretch and then another. -/
def and (c d : Cost) : Cost :=
  ⟨c.steps + d.steps, max c.stack d.stack, max c.dump d.dump, c.cells + d.cells⟩

/-- The cost of a stretch that starts at these heights. -/
def above (c : Cost) (stack dump : Nat) : Cost :=
  { c with stack := stack + c.stack, dump := dump + c.dump }

/-- The cost of a stretch with the instructions around it: one that pushes a frame, and takes some
cells, and one that pops the frame. -/
def framed (c : Cost) (cells : Nat) : Cost := (c.above 0 1).and ⟨2, 0, 1, cells⟩

/-- What a run uses that has this cost up to its HALT. -/
def stats (c : Cost) : Stats := ⟨c.steps + 1, c.stack, c.dump, c.cells⟩

theorem above_above (c : Cost) (s t s' t' : Nat) :
    (c.above s t).above s' t' = c.above (s' + s) (t' + t) := by
  simp only [above, Nat.add_assoc]

theorem and_above (c d : Cost) (s t : Nat) :
    (c.and d).above s t = (c.above s t).and (d.above s t) := by
  simp only [above, and, Nat.add_max_add_left]

end Cost

/-- An expression has a value in an environment, at a cost. -/
inductive Expr.Spends : List (Datum Expr) → Expr → Datum Expr → Cost → Prop where
  | literal {env : List (Datum Expr)} (n : Word) : Spends env (.literal n) (.int n) ⟨1, 1, 0, 0⟩
  | var {env : List (Datum Expr)} {index : Nat} {value : Datum Expr}
      (bound : env[index]? = some value) : Spends env (.var index) value ⟨1, 1, 0, 0⟩
  | arith {env : List (Datum Expr)} {op : Operator} {left right : Expr} {x y : Word} {c d : Cost}
      (first : Spends env left (.int x) c) (second : Spends env right (.int y) d) :
      Spends env (.arith op left right) (.int (op.combine x y))
        ((c.and (d.above 1 0)).and ⟨1, 0, 0, 0⟩)
  | ifZero {env : List (Datum Expr)} {condition onZero onNonzero : Expr} {n : Word}
      {value : Datum Expr} {c d : Cost} (test : Spends env condition (.int n) c)
      (branch : Spends env (if n = 0 then onZero else onNonzero) value d) :
      Spends env (.ifZero condition onZero onNonzero) value (c.and (d.framed 0))
  | lam {env : List (Datum Expr)} (body : Expr) :
      Spends env (.lam body) (.plain body env) ⟨1, 1, 0, 1⟩
  | lamRec {env : List (Datum Expr)} (body : Expr) :
      Spends env (.lamRec body) (.recursive body env) ⟨1, 1, 0, 2⟩
  | app {env captured : List (Datum Expr)} {function argument body : Expr}
      {closure input value : Datum Expr} {c d e : Cost} (callee : Spends env function closure c)
      (applied : closure.applied? = some (body, captured)) (operand : Spends env argument input d)
      (call : Spends (input :: captured) body value e) :
      Spends env (.app function argument) value ((c.and (d.above 1 0)).and (e.framed 1))

namespace Heap

/-- A way to make closures of some kind takes so many cells, if as many are free. -/
def MakesWith (Entry : Nat → Expr → Prop) (capture : Nat → Env → Effect Heap CellId)
    (make : Expr → List (Datum Expr) → Datum Expr) (k : Nat) : Prop :=
  ∀ ⦃h : Heap⦄ ⦃entry : Nat⦄ ⦃env : Env⦄ ⦃body : Expr⦄ ⦃list : List (Datum Expr)⦄,
    Entry entry body → DenotesEnv Entry h env list → h.size + k ≤ h.capacity →
      ∃ cell cells, cells.size = k ∧ capture entry env h = .ok cell (h.append cells) ∧
        Denotes Entry (h.append cells) (.closure cell) (make body list)

variable {Entry : Nat → Expr → Prop}

theorem makesWith_capture : MakesWith Entry capture .plain 1 := by
  intro h entry env body list starts captured room
  have done : capture entry env h = .ok h.size (h.append #[.closure ⟨entry, env⟩]) := by
    refine eq_ok_of_ends (ends_capture.2 ⟨fun _ => ⟨rfl, rfl⟩, fun full => ?_⟩)
    exact absurd room (Nat.not_le.2 (Nat.lt_succ_of_le full))
  have made := makes_capture starts captured
  rw [done] at made
  obtain ⟨-, -, denotes⟩ := made
  exact ⟨_, _, rfl, done, denotes⟩

theorem makesWith_captureRec : MakesWith Entry captureRec .recursive 2 := by
  intro h entry env body list starts captured room
  have done : captureRec entry env h = .ok (h.size + 1) (h.append
      #[.binding (.closure (h.size + 1)) env, .closure ⟨entry, some h.size⟩]) := by
    refine eq_ok_of_ends (ends_captureRec.2 ⟨fun _ => ⟨rfl, rfl⟩, fun one => ?_, fun full => ?_⟩)
    · omega
    · omega
  have made := makes_captureRec starts captured
  rw [done] at made
  obtain ⟨-, -, denotes⟩ := made
  exact ⟨_, _, rfl, done, denotes⟩

end Heap

namespace Machine

variable {code : Code} {m : Machine} {c d : Cost} {pc : Nat} {items : Array Value}
  {cells : Array Cell}

/-! ### Machines that have spent something -/

/-- The machine at the end of a stretch, with these items on the stack and some more cells. The
heights of the cost are counted from the bottom. -/
def spent (m : Machine) (c : Cost) (pc : Nat) (items : Array Value) (cells : Array Cell) :
    Machine where
  pc
  env := m.env
  stack := { m.stack with items, peak := max m.stack.peak c.stack }
  dump := { m.dump with peak := max m.dump.peak c.dump }
  heap := m.heap.append cells
  steps := m.steps + c.steps

/-- The stores have room for what a stretch costs. -/
structure Room (m : Machine) (c : Cost) : Prop where
  stack : c.stack < m.stack.capacity
  dump : c.dump < m.dump.capacity
  heap : m.heap.size + c.cells ≤ m.heap.capacity

/-- A stretch of a run from `m` comes to an address with a value on the items `rest`, at a cost. -/
def Buys (code : Code) (m : Machine) (c : Cost) (stop : Nat) (rest : Array Value)
    (value : Datum Expr) : Prop :=
  ∃ v cells, cells.size = c.cells ∧ Denotes code.Enters (m.heap.append cells) v value ∧
    advance code c.steps m = .ok none (m.spent c stop (rest.push v) cells)

theorem spent_spent (m : Machine) (c d : Cost) (pc pc' : Nat) (items items' : Array Value)
    (cells cells' : Array Cell) :
    (m.spent c pc items cells).spent d pc' items' cells' =
      m.spent (c.and d) pc' items' (cells ++ cells') := by
  simp only [spent, Cost.and, Heap.append_append, Nat.add_assoc, Nat.max_assoc]

/-- Heights below those that have been reached already make no difference. -/
theorem spent_congr (steps : c.steps = d.steps)
    (stack : max m.stack.peak c.stack = max m.stack.peak d.stack)
    (dump : max m.dump.peak c.dump = max m.dump.peak d.dump) :
    m.spent c pc items cells = m.spent d pc items cells := by
  simp only [spent, steps, stack, dump]

theorem Buys.congr {value : Datum Expr} (buys : Buys code m c pc items value)
    (steps : c.steps = d.steps) (stack : max m.stack.peak c.stack = max m.stack.peak d.stack)
    (dump : max m.dump.peak c.dump = max m.dump.peak d.dump) (cells : c.cells = d.cells) :
    Buys code m d pc items value := by
  obtain ⟨v, new, size, denotes, advanced⟩ := buys
  refine ⟨v, new, size.trans cells, denotes, ?_⟩
  rw [← steps, advanced, spent_congr steps stack dump]

/-- What was bought after a stretch was bought with it. -/
theorem Buys.after {value : Datum Expr} {stop : Nat} {rest : Array Value}
    (size : cells.size = c.cells)
    (advanced : advance code c.steps m = .ok none (m.spent c pc items cells))
    (buys : Buys code (m.spent c pc items cells) d stop rest value) :
    Buys code m (c.and d) stop rest value := by
  obtain ⟨v, cells', size', denotes, advanced'⟩ := buys
  refine ⟨v, cells ++ cells', ?_, ?_, ?_⟩
  · rw [Array.size_append, size, size']
    rfl
  · rw [← Heap.append_append]
    exact denotes
  · rw [← spent_spent, ← advanced']
    exact advance_add advanced d.steps

theorem Room.first (room : m.Room (c.and d)) : m.Room c := by
  obtain ⟨stack, dump, heap⟩ := room
  simp only [Cost.and] at stack dump heap
  exact ⟨by omega, by omega, by omega⟩

theorem Room.second (room : m.Room (c.and d)) (size : cells.size = c.cells) :
    (m.spent c pc items cells).Room d := by
  obtain ⟨stack, dump, heap⟩ := room
  simp only [Cost.and] at stack dump heap
  refine ⟨?_, ?_, ?_⟩
  · exact Nat.lt_of_le_of_lt (Nat.le_max_right _ _) stack
  · exact Nat.lt_of_le_of_lt (Nat.le_max_right _ _) dump
  · simp only [spent, Heap.append, Heap.size, Array.size_append, size] at heap ⊢
    omega

/-! ### The instructions -/

/-- One instruction, seen from the opcode on. -/
theorem advance_of_exec {op : Opcode} {m' : Machine} (found : code.HasOp m.pc op)
    (ends : Ends (fun result t => result = none ∧ t = m') (fun _ _ => False)
      (exec code op m.decoded)) : advance code 1 m = .ok none m' :=
  advance_succ_of_none (eq_ok_of_ends (ends_step_of_found found ends)) 0

/-- An instruction that replaces the items above `rest` by one has spent the room for it. -/
theorem spent_pushed (m : Machine) (pc : Nat) (rest : Array Value) (v : Value)
    (cells : Array Cell) (k : Nat) :
    { m with pc, stack := (m.stack.withItems rest).pushed v, heap := m.heap.append cells,
             steps := m.steps + 1 } = m.spent ⟨1, rest.size + 1, 0, k⟩ pc (rest.push v) cells := by
  simp only [spent, Stack.pushed, Stack.withItems, Stack.height, Nat.max_zero]

theorem advance_ldc {n : Word} (op : code.HasOp m.pc .ldc)
    (operand : code.fetch? (m.pc + 1) = some n) (room : m.Room ⟨1, m.stack.height + 1, 0, 0⟩) :
    advance code 1 m = .ok none
      (m.spent ⟨1, m.stack.height + 1, 0, 0⟩ (m.pc + 2) (m.stack.items.push (.int n)) #[]) := by
  refine advance_of_exec op (.bind_of_ok (fetch_of_some operand) ?_)
  rw [ends_bind, ends_onStack, Stack.ends_push]
  refine ⟨fun _ => ⟨rfl, spent_pushed m _ _ _ #[] 0⟩, fun full => ?_⟩
  exact absurd room.stack (Nat.not_lt.2 full)

theorem advance_ld {index : Nat} {v : Value} (op : code.HasOp m.pc .ld)
    (operand : code.HasIndex (m.pc + 1) index) (found : m.heap.lookup index m.env = .ok v)
    (room : m.Room ⟨1, m.stack.height + 1, 0, 0⟩) :
    advance code 1 m = .ok none
      (m.spent ⟨1, m.stack.height + 1, 0, 0⟩ (m.pc + 2) (m.stack.items.push v) #[]) := by
  refine advance_of_exec op ?_
  rw [exec, ends_bind, loadBinding_eq operand found, ends_onStack, Stack.ends_push]
  refine ⟨fun _ => ⟨rfl, spent_pushed m _ _ _ #[] 0⟩, fun full => ?_⟩
  exact absurd room.stack (Nat.not_lt.2 full)

theorem advance_arith {operator : Operator} {x y : Word} {rest : Array Value}
    (op : code.HasOp m.pc operator.opcode)
    (items : m.stack.items = (rest.push (.int x)).push (.int y))
    (room : m.Room ⟨1, rest.size + 1, 0, 0⟩) :
    advance code 1 m = .ok none (m.spent ⟨1, rest.size + 1, 0, 0⟩ (m.pc + 1)
      (rest.push (.int (operator.combine x y))) #[]) := by
  refine advance_of_exec op ?_
  rw [exec_opcode, ends_bind, arith_eq items, ends_onStack, Stack.ends_push]
  refine ⟨fun _ => ⟨rfl, spent_pushed m _ _ _ #[] 0⟩, fun full => ?_⟩
  exact absurd room.stack (Nat.not_lt.2 full)

theorem buys_closure {capture : Nat → Env → Effect Heap CellId}
    {make : Expr → List (Datum Expr) → Datum Expr} {op : Opcode} {entry k : Nat} {body : Expr}
    {list : List (Datum Expr)} (found : code.HasOp m.pc op)
    (loads : exec code op = (do loadClosure code capture; return none))
    (makes : Heap.MakesWith code.Enters capture make k) (operand : code.HasIndex (m.pc + 1) entry)
    (enters : code.Enters entry body) (env : DenotesEnv code.Enters m.heap m.env list)
    (room : m.Room ⟨1, m.stack.height + 1, 0, k⟩) :
    Buys code m ⟨1, m.stack.height + 1, 0, k⟩ (m.pc + 2) m.stack.items (make body list) := by
  obtain ⟨cell, cells, size, done, denotes⟩ := makes enters env room.heap
  refine ⟨_, cells, size, denotes, advance_of_exec found ?_⟩
  rw [loads, ends_bind, loadClosure_eq operand enters]
  refine .bind_of_ok (onHeap_of_ok done) ?_
  rw [ends_onStack, Stack.ends_push]
  refine ⟨fun _ => ⟨rfl, spent_pushed m _ _ _ cells k⟩, fun full => ?_⟩
  exact absurd room.stack (Nat.not_lt.2 full)

/-! ### With a frame of its own -/

/-- The machine behind an instruction that pushes a frame: elsewhere, above the items `rest`. -/
def framed (m : Machine) (frame : Frame) (pc : Nat) (env : Env) (rest : Array Value)
    (cells : Array Cell) : Machine where
  pc
  env
  stack := m.stack.withItems rest
  dump := m.dump.pushed frame
  heap := m.heap.append cells
  steps := m.steps + 1

/-- The machine behind an instruction that pops a frame and goes where it says. -/
def unframed (m : Machine) (resume : Nat) (env : Env) (frames : Array Frame) : Machine :=
  { m with pc := resume, env, dump := m.dump.withItems frames, steps := m.steps + 1 }

theorem unframed_spent_framed (m : Machine) (c : Cost) (frame : Frame) (pc stop resume k : Nat)
    (env : Env) (rest items : Array Value) (cells cells' : Array Cell) :
    ((m.framed frame pc env rest cells).spent (c.above rest.size (m.dump.height + 1)) stop items
      cells').unframed resume m.env m.dump.items =
      m.spent ((c.framed k).above rest.size m.dump.height) resume items (cells ++ cells') := by
  have stack : max m.stack.peak (rest.size + c.stack) =
      max m.stack.peak (rest.size + max (0 + c.stack) 0) := by omega
  have dump : max (max m.dump.peak (m.dump.height + 1)) (m.dump.height + 1 + c.dump) =
      max m.dump.peak (m.dump.height + max (1 + c.dump) 1) := by omega
  have steps : m.steps + 1 + c.steps + 1 = m.steps + (c.steps + 2) := by omega
  simp only [unframed, spent, framed, Cost.framed, Cost.and, Cost.above, Stack.pushed,
    Stack.withItems, Heap.append_append, stack, dump, steps]

theorem advance_sel {onZero onNonzero target : Nat} {n : Word} {rest : Array Value}
    (op : code.HasOp m.pc .sel) (zero : code.HasIndex (m.pc + 1) onZero)
    (nonzero : code.HasIndex (m.pc + 2) onNonzero) (items : m.stack.items = rest.push (.int n))
    (chosen : target = if n = 0 then onZero else onNonzero) (inside : target < code.size)
    (room : m.dump.height + 1 < m.dump.capacity) :
    advance code 1 m = .ok none (m.framed (.branch (m.pc + 3)) target m.env rest #[]) := by
  refine advance_of_exec op ?_
  rw [exec, ends_bind, select_eq zero nonzero items chosen inside]
  exact .bind_of_ok (onDump_of_ok (Stack.push_of_room room)) ⟨rfl, rfl⟩

theorem advance_join {resume : Nat} {frames : Array Frame} (op : code.HasOp m.pc .join)
    (items : m.dump.items = frames.push (.branch resume)) :
    advance code 1 m = .ok none (m.unframed resume m.env frames) := by
  refine advance_of_exec op ?_
  exact .bind_of_ok (onDump_of_ok (Stack.popBranch_of_push items)) ⟨rfl, rfl⟩

theorem advance_ap {cell : CellId} {argument : Value} {entry : Nat} {env : Env}
    {rest : Array Value} (op : code.HasOp m.pc .ap)
    (items : m.stack.items = (rest.push (.closure cell)).push argument)
    (held : m.heap.closure cell = .ok ⟨entry, env⟩) (room : m.dump.height + 1 < m.dump.capacity)
    (free : m.heap.size < m.heap.capacity) :
    advance code 1 m = .ok none (m.framed (.call (m.pc + 1) m.env) entry (some m.heap.size) rest
      #[.binding argument env]) := by
  refine advance_of_exec op ?_
  rw [exec, ends_bind, apply_eq items held]
  refine .bind_of_ok (onDump_of_ok (Stack.push_of_room room)) ?_
  rw [ends_bind, ends_onHeap, Heap.ends_extend]
  exact ⟨fun _ => ⟨rfl, rfl⟩, fun full => absurd free (Nat.not_lt.2 full)⟩

theorem advance_rtn {resume : Nat} {env : Env} {frames : Array Frame} (op : code.HasOp m.pc .rtn)
    (items : m.dump.items = frames.push (.call resume env)) :
    advance code 1 m = .ok none (m.unframed resume env frames) := by
  refine advance_of_exec op ?_
  rw [exec, ends_bind, ret]
  exact .bind_of_ok (onDump_of_ok (Stack.popCall_of_push items)) ⟨rfl, rfl⟩

/-! ### The parts of expressions -/

/-- The machine has a list for its environment and room for a cost above its heights. -/
structure Ready (m : Machine) (code : Code) (list : List (Datum Expr)) (c : Cost) : Prop where
  env : DenotesEnv code.Enters m.heap m.env list
  room : m.Room (c.above m.stack.height m.dump.height)
  peak : m.dump.height ≤ m.dump.peak

/-- Wherever the code of an expression lies, it gives the value at the cost. -/
def Pays (code : Code) (list : List (Datum Expr)) (e : Expr) (value : Datum Expr) (c : Cost) :
    Prop :=
  ∀ ⦃start stop : Nat⦄ ⦃m : Machine⦄, code.Holds e start stop → m.pc = start → m.Ready code list c →
    Buys code m (c.above m.stack.height m.dump.height) stop m.stack.items value

variable {list captured : List (Datum Expr)} {x y input value : Datum Expr}

/-- One item more, from wherever the stretch starts. -/
theorem Ready.leaf {k stop : Nat} (ready : m.Ready code list ⟨1, 1, 0, k⟩)
    (buys : m.Room ⟨1, m.stack.height + 1, 0, k⟩ →
      Buys code m ⟨1, m.stack.height + 1, 0, k⟩ stop items value) :
    Buys code m (Cost.above ⟨1, 1, 0, k⟩ m.stack.height m.dump.height) stop items value := by
  obtain ⟨-, ⟨stack, dump, heap⟩, peak⟩ := ready
  refine (buys ⟨stack, Nat.zero_lt_of_lt dump, heap⟩).congr rfl rfl ?_ rfl
  simp only [Cost.above]
  omega

theorem pays_literal (n : Word) : Pays code list (.literal n) (.int n) ⟨1, 1, 0, 0⟩ := by
  intro start stop m holds pc ready
  cases holds with
  | literal op operand =>
    subst pc
    exact ready.leaf fun room => ⟨_, #[], rfl, .int n, advance_ldc op operand room⟩

theorem pays_var {index : Nat} (bound : list[index]? = some value) :
    Pays code list (.var index) value ⟨1, 1, 0, 0⟩ := by
  intro start stop m holds pc ready
  cases holds with
  | var op operand =>
    subst pc
    rcases ready.env.lookup index with ⟨v, datum, found, bound', denotes⟩ | ⟨-, unbound⟩
    · rw [bound] at bound'
      cases bound'
      refine ready.leaf fun room => ?_
      exact ⟨v, #[], rfl, denotes.append #[], advance_ld op operand found room⟩
    · rw [bound] at unbound
      cases unbound

theorem pays_lam (body : Expr) : Pays code list (.lam body) (.plain body list) ⟨1, 1, 0, 1⟩ := by
  intro start stop m holds pc ready
  cases holds with
  | lam op target inner ret =>
    subst pc
    refine ready.leaf fun room => ?_
    exact buys_closure op rfl Heap.makesWith_capture target ⟨_, inner, ret⟩ ready.env room

theorem pays_lamRec (body : Expr) :
    Pays code list (.lamRec body) (.recursive body list) ⟨1, 1, 0, 2⟩ := by
  intro start stop m holds pc ready
  cases holds with
  | lamRec op target inner ret =>
    subst pc
    refine ready.leaf fun room => ?_
    exact buys_closure op rfl Heap.makesWith_captureRec target ⟨_, inner, ret⟩ ready.env room

/-- A part at the start of a stretch can be paid for if the whole stretch can. -/
theorem Ready.first (ready : m.Ready code list (c.and d)) : m.Ready code list c := by
  refine ⟨ready.env, ?_, ready.peak⟩
  have room := ready.room
  rw [Cost.and_above] at room
  exact room.first

/-- Two expressions in a row leave both values. -/
theorem Pays.both {left right : Expr} {start middle stop : Nat}
    (first : Pays code list left x c) (second : Pays code list right y d)
    (holds₁ : code.Holds left start middle) (holds₂ : code.Holds right middle stop)
    (pc : m.pc = start) (ready : m.Ready code list (c.and (d.above 1 0))) :
    ∃ a b cells, cells.size = c.cells + d.cells ∧ Denotes code.Enters (m.heap.append cells) a x ∧
      Denotes code.Enters (m.heap.append cells) b y ∧
      advance code (c.steps + d.steps) m = .ok none
        (m.spent ((c.and (d.above 1 0)).above m.stack.height m.dump.height) stop
          ((m.stack.items.push a).push b) cells) := by
  obtain ⟨a, cells₁, size₁, denotesA, advanced₁⟩ := first holds₁ pc ready.first
  have room := ready.room
  rw [Cost.and_above, Cost.above_above, Nat.add_zero] at room ⊢
  let m₁ := m.spent (c.above m.stack.height m.dump.height) middle (m.stack.items.push a) cells₁
  have height₁ : m₁.stack.height = m.stack.height + 1 := Array.size_push a
  have ready₁ : m₁.Ready code list d := by
    refine ⟨ready.env.append cells₁, ?_, Nat.le_trans ready.peak (Nat.le_max_left _ _)⟩
    rw [height₁]
    exact room.second size₁
  have buys₁ := second holds₂ rfl ready₁
  rw [height₁] at buys₁
  obtain ⟨b, cells₂, size₂, denotesB, advanced₂⟩ := buys₁
  refine ⟨a, b, cells₁ ++ cells₂, ?_, ?_, ?_, ?_⟩
  · rw [Array.size_append, size₁, size₂]
    rfl
  · rw [← Heap.append_append]
    exact denotesA.append cells₂
  · rw [← Heap.append_append]
    exact denotesB
  · refine (advance_add advanced₁ d.steps).trans (advanced₂.trans ?_)
    exact congrArg _ (spent_spent m _ _ _ _ _ _ _ _)

theorem Pays.arith {operator : Operator} {left right : Expr} {x y : Word}
    (first : Pays code list left (.int x) c) (second : Pays code list right (.int y) d) :
    Pays code list (.arith operator left right) (.int (operator.combine x y))
      ((c.and (d.above 1 0)).and ⟨1, 0, 0, 0⟩) := by
  intro start _ m holds pc ready
  cases holds with
  | @arith _ _ _ _ middle stop holds₁ holds₂ op =>
    obtain ⟨a, b, cells, size, denotesA, denotesB, advanced⟩ :=
      first.both second holds₁ holds₂ pc ready.first
    cases denotesA
    cases denotesB
    let m₂ := m.spent ((c.and (d.above 1 0)).above m.stack.height m.dump.height) stop
      ((m.stack.items.push (.int x)).push (.int y)) cells
    have room₂ : m₂.Room ⟨1, m.stack.items.size + 1, 0, 0⟩ := by
      obtain ⟨stack, -, -⟩ := ready.room
      have room := ready.room
      rw [Cost.and_above] at room
      obtain ⟨-, dump₂, heap₂⟩ : m₂.Room (Cost.above ⟨1, 0, 0, 0⟩ m.stack.height m.dump.height) :=
        room.second size
      refine ⟨?_, Nat.zero_lt_of_lt dump₂, heap₂⟩
      simp only [Cost.and, Cost.above, Stack.height] at stack
      change m.stack.items.size + 1 < m.stack.capacity
      omega
    have last : Buys code m₂ ⟨1, m.stack.items.size + 1, 0, 0⟩ (stop + 1) m.stack.items
        (.int (operator.combine x y)) := ⟨_, #[], rfl, .int _, advance_arith op rfl room₂⟩
    refine (Buys.after size advanced last).congr rfl ?_ ?_ rfl
    · simp only [Cost.and, Cost.above, Stack.height]
      omega
    · simp only [Cost.and, Cost.above]
      omega

/-- There is room for the frame and for the cells of the instruction that pushes it. -/
theorem Room.frame {s k : Nat} (room : m.Room ((c.framed k).above s m.dump.height)) :
    m.dump.height + 1 < m.dump.capacity ∧ m.heap.size + k ≤ m.heap.capacity := by
  obtain ⟨-, dump, heap⟩ := room
  simp only [Cost.framed, Cost.and, Cost.above] at dump heap
  omega

/-- A body pays for itself above the frame that is pushed for it, and the frame is popped. -/
theorem Pays.framed {e : Expr} {frame : Frame} {target stop resume : Nat} {env : Env}
    {rest : Array Value} {list' : List (Datum Expr)} (pays : Pays code list' e value c)
    (holds : code.Holds e target stop)
    (opened : advance code 1 m = .ok none (m.framed frame target env rest cells))
    (closes : ∀ t : Machine, t.pc = stop → t.env = env →
      t.dump.items = m.dump.items.push frame →
      advance code 1 t = .ok none (t.unframed resume m.env m.dump.items))
    (denotesEnv : DenotesEnv code.Enters (m.heap.append cells) env list')
    (room : m.Room ((c.framed cells.size).above rest.size m.dump.height)) :
    Buys code m ((c.framed cells.size).above rest.size m.dump.height) resume rest value := by
  let m₁ := m.framed frame target env rest cells
  have height₁ : m₁.dump.height = m.dump.height + 1 := Array.size_push frame
  have size₁ : m₁.heap.size = m.heap.size + cells.size := Array.size_append
  have ready₁ : m₁.Ready code list' c := by
    obtain ⟨stack, dump, heap⟩ := room
    simp only [Cost.framed, Cost.and, Cost.above] at stack dump heap
    refine ⟨denotesEnv, ⟨?_, ?_, ?_⟩, ?_⟩
    · change rest.size + c.stack < m.stack.capacity
      omega
    · change m₁.dump.height + c.dump < m.dump.capacity
      omega
    · change m₁.heap.size + c.cells ≤ m.heap.capacity
      omega
    · rw [height₁]
      exact Nat.le_max_right _ _
  have bought := pays holds rfl ready₁
  rw [height₁] at bought
  obtain ⟨v, cells', size, denotes, advanced⟩ := bought
  refine ⟨v, cells ++ cells', ?_, ?_, ?_⟩
  · rw [Array.size_append, size]
    exact Nat.add_comm _ _
  · rw [← Heap.append_append]
    exact denotes
  · have steps : c.steps + 2 = 1 + (c.steps + 1) := by omega
    calc advance code (c.steps + 2) m
        = advance code (c.steps + 1) m₁ := by rw [steps, advance_add opened]
      _ = advance code 1 _ := advance_add advanced 1
      _ = .ok none _ := closes _ rfl rfl rfl
      _ = .ok none _ :=
        congrArg _ (unframed_spent_framed m c frame target stop resume cells.size env rest _ _ _)

theorem Pays.ifZero {condition onZero onNonzero : Expr} {n : Word}
    (test : Pays code list condition (.int n) c)
    (chosen : Pays code list (if n = 0 then onZero else onNonzero) value d) :
    Pays code list (.ifZero condition onZero onNonzero) value (c.and (d.framed 0)) := by
  intro start _ m holds pc ready
  cases holds with
  | @ifZero _ _ _ _ middle t f stopT stopF holds op targetT targetF branchT joinT branchF joinF =>
    obtain ⟨v, cells, size, denotes, advanced⟩ := test holds pc ready.first
    cases denotes
    let m₁ := m.spent (c.above m.stack.height m.dump.height) middle
      (m.stack.items.push (.int n)) cells
    have room := ready.room
    rw [Cost.and_above] at room ⊢
    have room₁ : m₁.Room ((d.framed 0).above m.stack.height m.dump.height) := room.second size
    have free := room₁.frame.1
    have denotesEnv : DenotesEnv code.Enters (m₁.heap.append #[]) m₁.env list :=
      (ready.env.append cells).append #[]
    refine Buys.after size advanced ?_
    by_cases zero : n = 0
    · rw [if_pos zero] at chosen
      have opened := advance_sel op targetT targetF rfl (if_pos zero).symm branchT.lt_size free
      refine chosen.framed branchT opened ?_ denotesEnv room₁
      rintro t rfl env items
      exact env ▸ advance_join joinT items
    · rw [if_neg zero] at chosen
      have opened := advance_sel op targetT targetF rfl (if_neg zero).symm branchF.lt_size free
      refine chosen.framed branchF opened ?_ denotesEnv room₁
      rintro t rfl env items
      exact env ▸ advance_join joinF items

theorem Pays.app {e : Cost} {function argument body : Expr} {closure : Datum Expr}
    (callee : Pays code list function closure c)
    (applied : closure.applied? = some (body, captured))
    (operand : Pays code list argument input d)
    (call : Pays code (input :: captured) body value e) :
    Pays code list (.app function argument) value ((c.and (d.above 1 0)).and (e.framed 1)) := by
  intro start _ m holds pc ready
  cases holds with
  | @app _ _ _ middle stop holds₁ holds₂ op =>
    obtain ⟨a, b, cells, size, denotesA, denotesB, advanced⟩ :=
      callee.both operand holds₁ holds₂ pc ready.first
    let m₂ := m.spent ((c.and (d.above 1 0)).above m.stack.height m.dump.height) stop
      ((m.stack.items.push a).push b) cells
    have room := ready.room
    rw [Cost.and_above] at room ⊢
    have room₂ : m₂.Room ((e.framed 1).above m.stack.height m.dump.height) := room.second size
    obtain ⟨cell, entry, saved, rfl, held, ⟨last, inner, rtn⟩, denotesEnv⟩ :=
      denotesA.of_applied?_eq_some applied
    have opened := advance_ap op rfl held room₂.frame.1 room₂.frame.2
    refine Buys.after size advanced (call.framed inner opened ?_ ?_ room₂)
    · rintro t rfl - items
      exact advance_rtn rtn items
    · exact .extend denotesB denotesEnv

/-! ### Expressions -/

/-- An expression spends exactly its cost, wherever its code lies. -/
theorem pays_of_spends {e : Expr} (spends : Expr.Spends list e value c) :
    Pays code list e value c := by
  induction spends with
  | literal n => exact pays_literal n
  | var bound => exact pays_var bound
  | arith _ _ first second => exact first.arith second
  | ifZero _ _ test branch => exact test.ifZero branch
  | lam body => exact pays_lam body
  | lamRec body => exact pays_lamRec body
  | app _ applied _ _ callee operand call => exact callee.app applied operand call

/-! ### Programs -/

variable {e : Expr} {stop : Nat} {caps : Capacities} {n : Word}

/-- With room for its cost an expression is computed, and the run halts with its value. -/
theorem run_of_spends (spends : Expr.Spends [] e value c) (holds : code.Holds e 0 stop)
    (halt : code.HasOp stop .halt) (room : (fresh caps).Room c) :
    ∃ v m', run code (fresh caps) = .ok v m' ∧ Denotes code.Enters m'.heap v value ∧
      m'.stats = c.stats := by
  have ground : c.above (fresh caps).stack.height (fresh caps).dump.height = c := by
    simp only [Cost.above, fresh, Stack.height, Array.size_empty, Nat.zero_add]
  have ready : (fresh caps).Ready code [] c := ⟨.nil, ground.symm ▸ room, Nat.le_refl 0⟩
  have buys := pays_of_spends spends holds rfl ready
  rw [ground] at buys
  obtain ⟨v, cells, size, denotes, advanced⟩ := buys
  let m₁ := (fresh caps).spent c stop (#[].push v) cells
  let m₂ : Machine :=
    { m₁ with pc := stop + 1, stack := m₁.stack.withItems #[], steps := m₁.steps + 1 }
  have halts : step code m₁ = .ok (some v) m₂ := by
    refine eq_ok_of_ends (ends_step_of_found halt ?_)
    exact .bind_of_ok (onStack_of_ok (Stack.pop_of_push rfl)) ⟨rfl, rfl⟩
  have halted : advance code (c.steps + 1) (fresh caps) = .ok (some v) m₂ :=
    (advance_add advanced 1).trans (advance_succ_of_some halts 0)
  refine ⟨v, m₂, ?_, denotes, ?_⟩
  · rw [run_eq_advance (c.steps + 1), halted]
  · simp only [m₂, m₁, stats, spent, fresh, Cost.stats, Stack.withItems, Heap.append, Heap.size,
      Nat.zero_max, Nat.zero_add, Array.empty_append, size]

/-- A program that computes an integer halts with it and has used the cost if that fits into the
capacities; otherwise it ends at a store that is too small for it. -/
theorem run_fits_or_exhausts (spends : Expr.Spends [] e (.int n) c) (holds : code.Holds e 0 stop)
    (halt : code.HasOp stop .halt) (caps : Capacities) :
    (∃ m', run code (fresh caps) = .ok (.int n) m' ∧ m'.stats = c.stats ∧
      ∀ segment, c.stats.Fits caps segment) ∨
    ∃ trap m' segment, run code (fresh caps) = .error trap m' ∧
      trap.fault = .exhausted segment (caps.get segment) ∧ ¬ c.stats.Fits caps segment := by
  let enough : Capacities := ⟨0, c.stack + 1, c.dump + 1, c.cells⟩
  have room : (fresh enough).Room c :=
    ⟨Nat.lt_succ_self _, Nat.lt_succ_self _, Nat.le_of_eq (Nat.zero_add c.cells)⟩
  obtain ⟨v, m', ran, denotes, stats⟩ := run_of_spends spends holds halt room
  cases denotes
  have scaled : Scaled Trap.fault caps (fresh enough) (run code (fresh enough))
      (run code ((fresh enough).resize caps)) := (named_fresh enough).scaled_run rfl
  have start : (fresh enough).resize caps = fresh caps := rfl
  rw [start, ran] at scaled
  generalize run code (fresh caps) = r at scaled ⊢
  cases scaled with
  | same later fits =>
    refine .inl ⟨_, rfl, stats, fun segment => ?_⟩
    rw [← stats]
    exact fits segment (fits_fresh _ _ _)
  | @tight _ segment trap t later lacks fault =>
    rw [← stats]
    exact .inr ⟨trap, t, segment, rfl, fault, lacks⟩

end Machine

end Secd
