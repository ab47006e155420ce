import Secd.Machine.Step
import Secd.Effect.Outcome

/-!
How the parts of an instruction end: the operations of the stacks and of the heap, and their effect
on a machine. Each rule lists every end that the part can have, together with the state it leaves,
so that no later proof has to open the part again.

On the heap every operation of an instruction appends cells. A recursive closure appends two, of
which the first is pending for a moment only; with a single free cell left, that pending cell is
what stays.
-/

namespace Secd

open Effect

/-! ### Stacks -/

theorem Value.forall_iff {P : Value → Prop} :
    (∀ value, P value) ↔ (∀ n, P (.int n)) ∧ ∀ cell, P (.closure cell) := by
  constructor
  · intro h
    exact ⟨fun n => h (.int n), fun cell => h (.closure cell)⟩
  · rintro ⟨hint, hclosure⟩ (n | cell)
    · exact hint n
    · exact hclosure cell

theorem Frame.forall_iff {P : Frame → Prop} :
    (∀ frame, P frame) ↔ (∀ resume, P (.branch resume)) ∧ ∀ resume env, P (.call resume env) := by
  constructor
  · intro h
    exact ⟨fun resume => h (.branch resume), fun resume env => h (.call resume env)⟩
  · rintro ⟨hbranch, hcall⟩ (resume | ⟨resume, env⟩)
    · exact hbranch resume
    · exact hcall resume env

namespace Stack

variable {α : Type} {s : Stack α}

/-- The stack with other items; its greatest height is kept. -/
def withItems (s : Stack α) (items : Array α) : Stack α := { s with items }

/-- The stack with one more item. -/
def pushed (s : Stack α) (a : α) : Stack α :=
  { s with items := s.items.push a, peak := max s.peak (s.height + 1) }

theorem push_of_room {a : α} (room : s.height + 1 < s.capacity) :
    push a s = .ok () (s.pushed a) :=
  if_pos room

theorem push_of_full {a : α} (full : ¬ s.height + 1 < s.capacity) :
    push a s = .error (.exhausted s.segment s.capacity) s :=
  if_neg full

theorem pop_of_push {a : α} {rest : Array α} (items : s.items = rest.push a) :
    pop s = .ok a (s.withItems rest) := by
  simp [pop, top?, items, withItems]

theorem pop_of_empty (items : s.items = #[]) : pop s = .error (.underflow s.segment) s := by
  simp only [pop, top?, items, Array.back?_empty]

theorem popInt_of_push {s : Stack Value} {n : Word} {rest : Array Value}
    (items : s.items = rest.push (.int n)) : popInt s = .ok n (s.withItems rest) :=
  bind_of_ok (pop_of_push items)

theorem popClosure_of_push {s : Stack Value} {cell : CellId} {rest : Array Value}
    (items : s.items = rest.push (.closure cell)) : popClosure s = .ok cell (s.withItems rest) :=
  bind_of_ok (pop_of_push items)

theorem popBranch_of_push {s : Stack Frame} {resume : Nat} {rest : Array Frame}
    (items : s.items = rest.push (.branch resume)) :
    popBranch s = .ok resume (s.withItems rest) :=
  bind_of_ok (pop_of_push items)

theorem popCall_of_push {s : Stack Frame} {resume : Nat} {env : Env} {rest : Array Frame}
    (items : s.items = rest.push (.call resume env)) :
    popCall s = .ok (resume, env) (s.withItems rest) :=
  bind_of_ok (pop_of_push items)

theorem ends_push {Q : Unit → Stack α → Prop} {E : Fault → Stack α → Prop} {a : α} :
    Ends Q E (push a s) ↔ (s.height + 1 < s.capacity → Q () (s.pushed a)) ∧
      (s.capacity ≤ s.height + 1 → E (.exhausted s.segment s.capacity) s) := by
  by_cases room : s.height + 1 < s.capacity
  · rw [push_of_room room]
    simp [room, Nat.not_le.2 room]
  · rw [push_of_full room]
    simp [room, Nat.not_lt.1 room]

theorem ends_pop {Q : α → Stack α → Prop} {E : Fault → Stack α → Prop} :
    Ends Q E (pop s) ↔ (∀ rest a, s.items = rest.push a → Q a (s.withItems rest)) ∧
      (s.items = #[] → E (.underflow s.segment) s) := by
  by_cases items : s.items = #[]
  · rw [pop_of_empty items]
    simp [items, Array.push_ne_empty.symm]
  · obtain ⟨rest, a, items⟩ := Array.exists_push_of_ne_empty items
    rw [pop_of_push items, ends_ok, items]
    simp only [Array.push_eq_push, Array.push_ne_empty, false_implies, and_true]
    constructor
    · rintro good _ _ ⟨rfl, rfl⟩
      exact good
    · intro good
      exact good rest a ⟨rfl, rfl⟩

theorem ends_popInt {s : Stack Value} {Q : Word → Stack Value → Prop}
    {E : Fault → Stack Value → Prop} :
    Ends Q E (popInt s) ↔ (∀ rest n, s.items = rest.push (.int n) → Q n (s.withItems rest)) ∧
      (∀ rest cell, s.items = rest.push (.closure cell) →
        E (.valueKind .integer .closure) (s.withItems rest)) ∧
      (s.items = #[] → E (.underflow s.segment) s) := by
  rw [popInt, ends_bind, ends_pop, ← and_assoc]
  simp only [Value.forall_iff, forall_and]
  exact Iff.rfl

theorem ends_popClosure {s : Stack Value} {Q : CellId → Stack Value → Prop}
    {E : Fault → Stack Value → Prop} :
    Ends Q E (popClosure s) ↔
      (∀ rest cell, s.items = rest.push (.closure cell) → Q cell (s.withItems rest)) ∧
      (∀ rest n, s.items = rest.push (.int n) →
        E (.valueKind .closure .integer) (s.withItems rest)) ∧
      (s.items = #[] → E (.underflow s.segment) s) := by
  rw [popClosure, ends_bind, ends_pop, ← and_assoc]
  simp only [Value.forall_iff, forall_and]
  exact and_congr_left fun _ => and_comm

theorem ends_popBranch {s : Stack Frame} {Q : Nat → Stack Frame → Prop}
    {E : Fault → Stack Frame → Prop} :
    Ends Q E (popBranch s) ↔
      (∀ rest resume, s.items = rest.push (.branch resume) → Q resume (s.withItems rest)) ∧
      (∀ rest resume env, s.items = rest.push (.call resume env) →
        E (.frameKind .branch .call) (s.withItems rest)) ∧
      (s.items = #[] → E (.underflow s.segment) s) := by
  rw [popBranch, ends_bind, ends_pop, ← and_assoc]
  simp only [Frame.forall_iff, forall_and]
  exact Iff.rfl

theorem ends_popCall {s : Stack Frame} {Q : Nat × Env → Stack Frame → Prop}
    {E : Fault → Stack Frame → Prop} :
    Ends Q E (popCall s) ↔
      (∀ rest resume env, s.items = rest.push (.call resume env) →
        Q (resume, env) (s.withItems rest)) ∧
      (∀ rest resume, s.items = rest.push (.branch resume) →
        E (.frameKind .call .branch) (s.withItems rest)) ∧
      (s.items = #[] → E (.underflow s.segment) s) := by
  rw [popCall, ends_bind, ends_pop, ← and_assoc]
  simp only [Frame.forall_iff, forall_and]
  exact and_congr_left fun _ => and_comm

end Stack

/-! ### The heap -/

namespace Heap

variable {h : Heap} {E : Fault → Heap → Prop}

/-- The heap with more cells. -/
def append (h : Heap) (cells : Array Cell) : Heap := { h with cells := h.cells ++ cells }

theorem getElem?_append {cell : CellId} {content : Cell} (cells : Array Cell)
    (found : h.cells[cell]? = some content) : (h.append cells).cells[cell]? = some content := by
  obtain ⟨inside, -⟩ := Array.getElem?_eq_some_iff.1 found
  rw [append, Array.getElem?_append_left inside, found]

@[simp] theorem append_empty : h.append #[] = h := by simp [append]

theorem append_append (cells cells' : Array Cell) :
    (h.append cells).append cells' = h.append (cells ++ cells') := by
  simp [append, Array.append_assoc]

theorem getElem?_append_new (cells : Array Cell) (i : Nat) :
    (h.append cells).cells[h.size + i]? = cells[i]? := by
  rw [append, size, Array.getElem?_append_right (Nat.le_add_right _ _), Nat.add_sub_cancel_left]

theorem mem_of_closure {cell : CellId} {content : Closure} (held : h.closure cell = .ok content) :
    .closure content ∈ h.cells := by
  unfold closure at held
  split at held
  · rename_i found
    cases held
    exact Array.mem_of_getElem? found
  · cases held
  · cases held

theorem ends_allocate {Q : CellId → Heap → Prop} {cell : Cell} :
    Ends Q E (allocate cell h) ↔ (h.size < h.capacity → Q h.size (h.append #[cell])) ∧
      (h.capacity ≤ h.size → E (.exhausted .heap h.capacity) h) := by
  obtain ⟨capacity, cells⟩ := h
  simp only [allocate, append, size, Array.push_eq_append]
  split
  · rename_i room
    simp [room, Nat.not_le.2 room]
  · rename_i full
    simp [full, Nat.not_lt.1 full]

theorem ends_extend {Q : Env → Heap → Prop} {value : Value} {env : Env} :
    Ends Q E (extend value env h) ↔
      (h.size < h.capacity → Q (some h.size) (h.append #[.binding value env])) ∧
      (h.capacity ≤ h.size → E (.exhausted .heap h.capacity) h) := by
  simp only [extend, ends_bind, ends_allocate, ends_pure]

theorem ends_capture {Q : CellId → Heap → Prop} {entry : Nat} {env : Env} :
    Ends Q E (capture entry env h) ↔
      (h.size < h.capacity → Q h.size (h.append #[.closure ⟨entry, env⟩])) ∧
      (h.capacity ≤ h.size → E (.exhausted .heap h.capacity) h) :=
  ends_allocate

theorem tie_of_pending {slot closure : CellId} {tail : Env}
    (found : h.cells[slot]? = some (.pending tail)) :
    tie slot closure h = .ok (some slot)
      { h with cells := h.cells.setIfInBounds slot (.binding (.closure closure) tail) } := by
  simp only [tie, found]

/-- The pending cell of a new recursive closure is always there to be tied. -/
theorem tie_append {entry : Nat} {env : Env} :
    tie h.size (h.size + 1) ((h.append #[.pending env]).append #[.closure ⟨entry, some h.size⟩]) =
      .ok (some h.size)
        (h.append #[.binding (.closure (h.size + 1)) env, .closure ⟨entry, some h.size⟩]) := by
  have found : ((h.append #[.pending env]).append
      #[.closure ⟨entry, some h.size⟩]).cells[h.size]? = some (.pending env) := by
    rw [append_append]
    exact getElem?_append_new _ 0
  rw [tie_of_pending found]
  congr 1
  simp only [append, mk.injEq, true_and]
  rw [← Array.toList_inj]
  simp [size]

theorem ends_captureRec {Q : CellId → Heap → Prop} {entry : Nat} {env : Env} :
    Ends Q E (captureRec entry env h) ↔
      (h.size + 1 < h.capacity → Q (h.size + 1)
        (h.append #[.binding (.closure (h.size + 1)) env, .closure ⟨entry, some h.size⟩])) ∧
      (h.size + 1 = h.capacity →
        E (.exhausted .heap h.capacity) (h.append #[.pending env])) ∧
      (h.capacity ≤ h.size → E (.exhausted .heap h.capacity) h) := by
  have size_append : (h.append #[.pending env]).size = h.size + 1 := by simp [append, size]
  have capacity_append : (h.append #[.pending env]).capacity = h.capacity := rfl
  simp only [captureRec, reserve, ends_bind, ends_allocate, ends_capture, size_append,
    capacity_append, tie_append, ends_ok, ends_pure]
  constructor
  · rintro ⟨room, full⟩
    exact ⟨fun two => (room (by omega)).1 two, fun one => (room (by omega)).2 (by omega), full⟩
  · rintro ⟨two, one, full⟩
    exact ⟨fun room => ⟨two, fun le => one (by omega)⟩, full⟩

end Heap

/-! ### The code -/

/-- The words behind the first part of the code. -/
theorem Code.fetch?_append {code : Code} {front back : List Word}
    (parts : code.words.toList = front ++ back) (j : Nat) :
    code.fetch? (front.length + j) = back[j]? := by
  rw [fetch?, ← Array.getElem?_toList, parts, List.getElem?_append_right (Nat.le_add_right _ _),
    Nat.add_sub_cancel_left]

/-! ### The machine -/

namespace Machine

variable {α : Type} {Q : α → Machine → Prop} {E : Fault → Machine → Prop} {m : Machine}

theorem onStack_eq (a : Effect (Stack Value) α) (m : Machine) :
    onStack a m = match a m.stack with
      | .ok x stack => .ok x { m with stack }
      | .error fault stack => .error fault { m with stack } := rfl

theorem onDump_eq (a : Effect (Stack Frame) α) (m : Machine) :
    onDump a m = match a m.dump with
      | .ok x dump => .ok x { m with dump }
      | .error fault dump => .error fault { m with dump } := rfl

theorem onHeap_eq (a : Effect Heap α) (m : Machine) :
    onHeap a m = match a m.heap with
      | .ok x heap => .ok x { m with heap }
      | .error fault heap => .error fault { m with heap } := rfl

theorem onStack_of_ok {a : Effect (Stack Value) α} {x : α} {stack : Stack Value}
    (h : a m.stack = .ok x stack) : onStack a m = .ok x { m with stack } := by
  rw [onStack_eq, h]

theorem onDump_of_ok {a : Effect (Stack Frame) α} {x : α} {dump : Stack Frame}
    (h : a m.dump = .ok x dump) : onDump a m = .ok x { m with dump } := by
  rw [onDump_eq, h]

theorem onHeap_of_ok {a : Effect Heap α} {x : α} {heap : Heap} (h : a m.heap = .ok x heap) :
    onHeap a m = .ok x { m with heap } := by
  rw [onHeap_eq, h]

theorem fetch_of_some {code : Code} {word : Word} (found : code.fetch? m.pc = some word) :
    fetch code m = .ok word { m with pc := m.pc + 1 } := by
  have looked : (get : Effect Machine Machine) m = .ok m m := rfl
  rw [fetch, bind_of_ok looked, found]
  rfl

theorem fetch_of_none {code : Code} (missing : code.fetch? m.pc = none) :
    fetch code m = .error (.outOfCode m.pc code.size) m := by
  have looked : (get : Effect Machine Machine) m = .ok m m := rfl
  rw [fetch, bind_of_ok looked, missing]
  rfl

@[simp] theorem ends_onStack {a : Effect (Stack Value) α} :
    Ends Q E (onStack a m) ↔ Ends (fun x s => Q x { m with stack := s })
      (fun fault s => E fault { m with stack := s }) (a m.stack) := by
  rw [onStack_eq]
  cases a m.stack <;> rfl

@[simp] theorem ends_onDump {a : Effect (Stack Frame) α} :
    Ends Q E (onDump a m) ↔ Ends (fun x d => Q x { m with dump := d })
      (fun fault d => E fault { m with dump := d }) (a m.dump) := by
  rw [onDump_eq]
  cases a m.dump <;> rfl

@[simp] theorem ends_onHeap {a : Effect Heap α} :
    Ends Q E (onHeap a m) ↔ Ends (fun x h => Q x { m with heap := h })
      (fun fault h => E fault { m with heap := h }) (a m.heap) := by
  rw [onHeap_eq]
  cases a m.heap <;> rfl

theorem ends_fetch {Q : Word → Machine → Prop} {code : Code} :
    Ends Q E (fetch code m) ↔
      (∀ word, code.fetch? m.pc = some word → Q word { m with pc := m.pc + 1 }) ∧
      (code.fetch? m.pc = none → E (.outOfCode m.pc code.size) m) := by
  simp only [fetch, ends_bind, ends_get]
  cases code.fetch? m.pc with
  | none => simp
  | some word => simp only [ends_bind, ends_set, ends_pure, Option.some.injEq, forall_eq',
      reduceCtorEq, false_implies, and_true]

@[simp] theorem ends_jump {Q : Unit → Machine → Prop} {pc : Nat} :
    Ends Q E (jump pc m) ↔ Q () { m with pc } := Iff.rfl

@[simp] theorem ends_enter {Q : Unit → Machine → Prop} {env : Env} :
    Ends Q E (enter env m) ↔ Q () { m with env } := Iff.rfl

/-- The machine behind an opcode. -/
def decoded (m : Machine) : Machine := { m with pc := m.pc + 1, steps := m.steps + 1 }

theorem ends_decode {Q : Opcode → Machine → Prop} {code : Code} :
    Ends Q E (decode code m) ↔
      (∀ op, code.fetch? m.pc = some op.word → Q op m.decoded) ∧
      (∀ word, code.fetch? m.pc = some word → Opcode.ofWord? word = none →
        E (.badOpcode word) { m with pc := m.pc + 1 }) ∧
      (code.fetch? m.pc = none → E (.outOfCode m.pc code.size) m) := by
  rw [decode, ends_bind, ends_fetch, ← and_assoc, and_congr_left_iff]
  intro _
  constructor
  · intro h
    constructor
    · intro op found
      have := h op.word found
      rw [Opcode.ofWord?_word] at this
      exact this
    · intro word found bad
      have := h word found
      rw [bad] at this
      exact this
  · rintro ⟨good, bad⟩ word found
    cases decoded : Opcode.ofWord? word with
    | none => exact bad word found decoded
    | some op =>
      rw [Opcode.ofWord?_eq_some_iff] at decoded
      exact good op (decoded ▸ found)

/-- A step decodes and executes, and puts the address to a fault. -/
theorem step_eq (code : Code) (m : Machine) :
    step code m = located m.pc ((decode code >>= exec code) m) := by
  change (observe code m).2 = located m.pc (EStateM.bind (decode code) (exec code) m)
  simp only [observe, EStateM.bind]
  cases decode code m <;> rfl

/-- A step ends before it has an instruction, or as its instruction does. -/
theorem ends_step {Q : Option Value → Machine → Prop} {E : Trap → Machine → Prop} {code : Code} :
    Ends Q E (step code m) ↔
      (∀ op, code.fetch? m.pc = some op.word →
        Ends Q (fun fault m' => E ⟨m.pc, fault⟩ m') (exec code op m.decoded)) ∧
      (∀ word, code.fetch? m.pc = some word → Opcode.ofWord? word = none →
        E ⟨m.pc, .badOpcode word⟩ { m with pc := m.pc + 1 }) ∧
      (code.fetch? m.pc = none → E ⟨m.pc, .outOfCode m.pc code.size⟩ m) := by
  have located : Ends Q E (step code m) ↔
      Ends Q (fun fault m' => E ⟨m.pc, fault⟩ m') ((decode code >>= exec code) m) := by
    rw [step_eq]
    cases (decode code >>= exec code) m <;> rfl
  rw [located, ends_bind, ends_decode]

end Machine

end Secd
