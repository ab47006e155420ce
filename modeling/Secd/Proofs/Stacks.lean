import Secd.Proofs.Statistics

/-!
Bounded stacks beside plain lists. Whatever is pushed and popped, and in whatever order, a stack of
capacity `c` is a list with a bound, topmost item first:

      push a                   a :: list        if that is shorter than c, else nothing happens
      pop, of a :: list        list             a typed pop as well if `a` is of the wrong kind
      pop, of the empty list   nothing happens

The list does not know of the stack: how an operation ends is read off the list alone, and the stack
always ends it in the same way. The greatest height is that of the longest of the lists so far.
-/

namespace Secd.Stack

open Effect

/-! ### Operations -/

/-- An operation on a stack. The typed pops are those of the operand stack and of the dump. -/
inductive Operation : Type → Type 1 where
  | push {α : Type} (a : α) : Operation α
  | pop {α : Type} : Operation α
  | popInt : Operation Value
  | popClosure : Operation Value
  | popBranch : Operation Frame
  | popCall : Operation Frame

namespace Operation

/-- Carries the operation out; a pop gives the item that it took. -/
def perform : {α : Type} → Operation α → Effect (Stack α) (Option α)
  | _, push a => do
    Stack.push a
    return none
  | _, pop => return some (← Stack.pop)
  | _, popInt => return some (.int (← Stack.popInt))
  | _, popClosure => return some (.closure (← Stack.popClosure))
  | _, popBranch => return some (.branch (← Stack.popBranch))
  | _, popCall => do
    let (resume, env) ← Stack.popCall
    return some (.call resume env)

/-- How the operation ends on a stack with the items of a list. -/
def expect (segment : Segment) (capacity : Nat) :
    {α : Type} → Operation α → List α → Except Fault (Option α)
  | _, push a, list =>
    if (a :: list).length < capacity then .ok none else .error (.exhausted segment capacity)
  | _, _, [] => .error (.underflow segment)
  | _, pop, a :: _ => .ok (some a)
  | _, popInt, .int n :: _ => .ok (some (.int n))
  | _, popInt, .closure _ :: _ => .error (.valueKind .integer .closure)
  | _, popClosure, .closure cell :: _ => .ok (some (.closure cell))
  | _, popClosure, .int _ :: _ => .error (.valueKind .closure .integer)
  | _, popBranch, .branch resume :: _ => .ok (some (.branch resume))
  | _, popBranch, .call _ _ :: _ => .error (.frameKind .branch .call)
  | _, popCall, .call resume env :: _ => .ok (some (.call resume env))
  | _, popCall, .branch _ :: _ => .error (.frameKind .call .branch)

/-- The list after an operation that has ended in this way: every push that did not fail has put its
item, and every pop that met an item has taken it. -/
def replay : {α : Type} → Operation α → Except Fault (Option α) → List α → List α
  | _, push a, .ok _, list => a :: list
  | _, push _, .error _, list => list
  | _, _, .error (.underflow _), list => list
  | _, _, _, list => list.tail

/-- The list after the operation, as the list alone decides. -/
def onList {α : Type} (segment : Segment) (capacity : Nat) (list : List α) (op : Operation α) :
    List α :=
  op.replay (op.expect segment capacity list) list

end Operation

variable {α : Type} {s : Stack α} {op : Operation α}

/-- The items of a stack, topmost first. -/
def list (s : Stack α) : List α := s.items.toList.reverse

/-- How an operation ends. -/
def outcome (s : Stack α) (op : Operation α) : Except Fault (Option α) :=
  match op.perform s with
  | .ok item _ => .ok item
  | .error fault _ => .error fault

/-- The stack that an operation leaves, however it ends. -/
def after (s : Stack α) (op : Operation α) : Stack α :=
  match op.perform s with
  | .ok _ s' => s'
  | .error _ s' => s'

/-- The greatest height that a stack has from here on until all operations are carried out. -/
def highest : Stack α → List (Operation α) → Nat
  | s, [] => s.height
  | s, op :: ops => max s.height ((s.after op).highest ops)

/-- A stack holds the items of a list, and it ends every operation as the list says. -/
structure Mirrors (segment : Segment) (capacity : Nat) (list : List α) (s : Stack α) : Prop where
  items : s.list = list
  outcomes : ∀ op, s.outcome op = op.expect segment capacity list
  push_iff : ∀ a, s.outcome (.push a) = .ok none ↔ (a :: list).length < capacity
  /-- A push that fails changes nothing. -/
  refused : ∀ a, s.outcome (.push a) ≠ .ok none → s.after (.push a) = s
  /-- A pop takes the topmost item, of whatever kind it is. -/
  pops : ∀ op, (∀ a, op ≠ .push a) → (s.after op).list = list.tail
  height : s.height = 0 ∨ s.height < capacity

/-! ### One operation -/

theorem length_list (s : Stack α) : s.list.length = s.height := by
  rw [list, List.length_reverse, Array.length_toList, height]

theorem list_pushed (s : Stack α) (a : α) : (s.pushed a).list = a :: s.list := by
  simp [list, pushed]

theorem list_of_push {rest : Array α} {a : α} (items : s.items = rest.push a) :
    s.list = a :: (s.withItems rest).list := by
  simp [list, withItems, items]

theorem list_of_empty (items : s.items = #[]) : s.list = [] := by
  simp [list, items]

/-- What an operation does to a stack, if it ends in the given way. -/
structure Moves (s : Stack α) (op : Operation α) (outcome : Except Fault (Option α))
    (s' : Stack α) : Prop where
  segment : s'.segment = s.segment
  capacity : s'.capacity = s.capacity
  expected : outcome = op.expect s.segment s.capacity s.list
  list : s'.list = op.replay outcome s.list
  tracks : s.Tracks s'
  bounded : s'.height ≤ s.height ∨ s'.height < s.capacity

theorem moves_pushed {a : α} (room : s.height + 1 < s.capacity) :
    Moves s (.push a) (.ok none) (s.pushed a) where
  segment := rfl
  capacity := rfl
  expected := by rw [Operation.expect, List.length_cons, length_list, if_pos room]
  list := list_pushed s a
  tracks := tracks_pushed s s.items a
  bounded := .inr ((Array.size_push a).trans_lt room)

theorem moves_refused {a : α} (recorded : s.Recorded) (full : s.capacity ≤ s.height + 1) :
    Moves s (.push a) (.error (.exhausted s.segment s.capacity)) s where
  segment := rfl
  capacity := rfl
  expected := by
    rw [Operation.expect, List.length_cons, length_list, if_neg (Nat.not_lt.2 full)]
  list := rfl
  tracks := recorded.tracks
  bounded := .inl (Nat.le_refl _)

/-- A pop takes the topmost item, also if it fails on its kind. -/
theorem moves_taken {rest : Array α} {a : α} {outcome : Except Fault (Option α)}
    (recorded : s.Recorded) (items : s.items = rest.push a)
    (expected : outcome = op.expect s.segment s.capacity (a :: (s.withItems rest).list))
    (taken : (s.withItems rest).list = op.replay outcome (a :: (s.withItems rest).list)) :
    Moves s op outcome (s.withItems rest) where
  segment := rfl
  capacity := rfl
  expected := by rwa [list_of_push items]
  list := by rwa [list_of_push items]
  tracks := recorded.tracks_withItems (standsOn_of_push items).size_le
  bounded := .inl (standsOn_of_push items).size_le

theorem moves_underflow (recorded : s.Recorded) (items : s.items = #[])
    (expected : op.expect s.segment s.capacity [] = .error (.underflow s.segment))
    (kept : op.replay (.error (.underflow s.segment)) [] = []) :
    Moves s op (.error (.underflow s.segment)) s where
  segment := rfl
  capacity := rfl
  expected := by rw [list_of_empty items, expected]
  list := by rw [list_of_empty items, kept]
  tracks := recorded.tracks
  bounded := .inl (Nat.le_refl _)

theorem moves_perform (recorded : s.Recorded) (op : Operation α) :
    Ends (fun item s' => Moves s op (.ok item) s') (fun fault s' => Moves s op (.error fault) s')
      (op.perform s) := by
  cases op with
  | push a =>
    simp only [Operation.perform, ends_bind, ends_push, ends_pure]
    exact ⟨moves_pushed, moves_refused recorded⟩
  | pop =>
    simp only [Operation.perform, ends_bind, ends_pop, ends_pure]
    exact ⟨fun rest a items => moves_taken recorded items rfl rfl,
      fun items => moves_underflow recorded items rfl rfl⟩
  | popInt =>
    simp only [Operation.perform, ends_bind, ends_popInt, ends_pure]
    exact ⟨fun rest n items => moves_taken recorded items rfl rfl,
      fun rest cell items => moves_taken recorded items rfl rfl,
      fun items => moves_underflow recorded items rfl rfl⟩
  | popClosure =>
    simp only [Operation.perform, ends_bind, ends_popClosure, ends_pure]
    exact ⟨fun rest cell items => moves_taken recorded items rfl rfl,
      fun rest n items => moves_taken recorded items rfl rfl,
      fun items => moves_underflow recorded items rfl rfl⟩
  | popBranch =>
    simp only [Operation.perform, ends_bind, ends_popBranch, ends_pure]
    exact ⟨fun rest resume items => moves_taken recorded items rfl rfl,
      fun rest resume env items => moves_taken recorded items rfl rfl,
      fun items => moves_underflow recorded items rfl rfl⟩
  | popCall =>
    simp only [Operation.perform, ends_bind, ends_popCall, ends_pure]
    exact ⟨fun rest resume env items => moves_taken recorded items rfl rfl,
      fun rest resume items => moves_taken recorded items rfl rfl,
      fun items => moves_underflow recorded items rfl rfl⟩

theorem moves (recorded : s.Recorded) (op : Operation α) :
    Moves s op (s.outcome op) (s.after op) := by
  have ends := moves_perform recorded op
  unfold outcome after
  cases ended : op.perform s with
  | ok item s' =>
    rw [ended] at ends
    exact ends
  | error fault s' =>
    rw [ended] at ends
    exact ends

theorem outcome_push_iff (recorded : s.Recorded) (a : α) :
    s.outcome (.push a) = .ok none ↔ (a :: s.list).length < s.capacity := by
  rw [(moves recorded (.push a)).expected, Operation.expect]
  split <;> rename_i room
  · exact iff_of_true rfl room
  · exact iff_of_false nofun room

theorem after_push_of_full {a : α} (full : ¬ (a :: s.list).length < s.capacity) :
    s.after (.push a) = s := by
  rw [List.length_cons, length_list] at full
  have failed : (Operation.push a).perform s = .error (.exhausted s.segment s.capacity) s :=
    bind_eq_error_iff.2 (.inl (push_of_full full))
  rw [after, failed]

/-- To a list every pop does the same, as the item is gone before anything is asked of it. -/
theorem Operation.onList_of_pop {segment : Segment} {capacity : Nat} (list : List α)
    (isPop : ∀ a, op ≠ .push a) : Operation.onList segment capacity list op = list.tail := by
  cases op with
  | push a => exact absurd rfl (isPop a)
  | pop => cases list <;> rfl
  | popInt | popClosure | popBranch | popCall =>
    rcases list with _ | ⟨_ | _, rest⟩ <;> rfl

/-! ### Any number of operations -/

theorem height_le_highest (s : Stack α) (ops : List (Operation α)) : s.height ≤ s.highest ops := by
  cases ops with
  | nil => exact Nat.le_refl _
  | cons op ops => exact Nat.le_max_left _ _

/-- What a sequence of operations makes of a stack. -/
structure Follows (s : Stack α) (ops : List (Operation α)) (t : Stack α) : Prop where
  segment : t.segment = s.segment
  capacity : t.capacity = s.capacity
  list : t.list = ops.foldl (Operation.onList s.segment s.capacity) s.list
  bounded : t.height ≤ s.height ∨ t.height < s.capacity
  recorded : t.Recorded
  peak : t.peak = max s.peak (s.highest ops)

theorem follows_foldl (recorded : s.Recorded) (ops : List (Operation α)) :
    s.Follows ops (ops.foldl after s) := by
  induction ops generalizing s with
  | nil =>
    exact ⟨rfl, rfl, rfl, .inl (Nat.le_refl _), recorded, recorded.tracks⟩
  | cons op ops ih =>
    have first := moves recorded op
    have rest := ih first.tracks.recorded
    rw [List.foldl_cons]
    refine ⟨rest.segment.trans first.segment, rest.capacity.trans first.capacity, ?_, ?_,
      rest.recorded, ?_⟩
    · rw [rest.list, first.list, first.segment, first.capacity, first.expected, List.foldl_cons]
      rfl
    · have later := rest.bounded
      have now := first.bounded
      rw [first.capacity] at later
      omega
    · -- the height after the first operation is among those that follow
      have now : (s.after op).peak = max s.peak (s.after op).height := first.tracks
      have seen := height_le_highest (s.after op) ops
      have before : s.height ≤ s.peak := recorded
      rw [rest.peak, now, highest]
      omega

theorem empty?_eq_ok {segment : Segment} {capacity : Nat}
    (made : Stack.empty? segment capacity = .ok s) : s = ⟨segment, capacity, #[], 0⟩ := by
  obtain ⟨-, -, made⟩ := exists_ok_of_bind made
  cases made
  rfl

theorem mirrors_self (recorded : s.Recorded) (height : s.height = 0 ∨ s.height < s.capacity) :
    Mirrors s.segment s.capacity s.list s where
  items := rfl
  outcomes := fun op => (moves recorded op).expected
  push_iff := outcome_push_iff recorded
  refused := fun a failed => after_push_of_full (mt (outcome_push_iff recorded a).2 failed)
  pops := by
    intro op isPop
    have moves := moves recorded op
    rw [moves.list, moves.expected]
    exact Operation.onList_of_pop s.list isPop
  height := height

/-- Whatever operations are carried out on a new stack, it holds what a plain list with a bound
would, and ends each of them as that list says; its peak is the greatest height it has had. -/
theorem mirrors_list {segment : Segment} {capacity : Nat}
    (made : Stack.empty? segment capacity = .ok s) (ops : List (Operation α)) :
    Mirrors segment capacity (ops.foldl (Operation.onList segment capacity) [])
        (ops.foldl after s) ∧
      (ops.foldl after s).peak = s.highest ops := by
  obtain rfl := empty?_eq_ok made
  have recorded : Recorded (⟨segment, capacity, #[], 0⟩ : Stack α) := Nat.le_refl 0
  have follows := follows_foldl recorded ops
  constructor
  · have height : (ops.foldl after ⟨segment, capacity, #[], 0⟩).height = 0 ∨
        (ops.foldl after ⟨segment, capacity, #[], 0⟩).height < capacity :=
      follows.bounded.imp_left Nat.eq_zero_of_le_zero
    have mirrors := mirrors_self follows.recorded (by rwa [follows.capacity])
    rw [follows.segment, follows.capacity, follows.list] at mirrors
    exact mirrors
  · rw [follows.peak]
    exact Nat.zero_max _

/-- A stack for two items refuses a third one. A pop of an integer that meets a closure takes it all
the same, and only after that is the stack empty. -/
theorem mirrors_list_past_faults :
    let ops : List (Operation Value) :=
      [.popInt, .push (.closure 4), .push (.int 7), .push (.int 8), .pop, .popInt]
    ∃ s, Stack.empty? .stack 3 = .ok s ∧
      Mirrors .stack 3 (ops.foldl (Operation.onList .stack 3) []) (ops.foldl after s) ∧
      (ops.take 4).foldl (Operation.onList .stack 3) [] = [.int 7, .closure 4] ∧
      ((ops.take 5).foldl after s).outcome .popInt = .error (.valueKind .integer .closure) ∧
      (ops.foldl after s).outcome .popInt = .error (.underflow .stack) ∧
      (ops.foldl after s).peak = 2 := by
  intro ops
  have made : Stack.empty? .stack 3 = .ok (⟨.stack, 3, #[], 0⟩ : Stack Value) := rfl
  obtain ⟨mirrors, peak⟩ := mirrors_list made ops
  refine ⟨_, made, mirrors, rfl, ?_, ?_, ?_⟩
  · exact (mirrors_list made (ops.take 5)).1.outcomes .popInt
  · exact mirrors.outcomes .popInt
  · rw [peak]
    decide +kernel

end Secd.Stack
