import Secd.Machine.Execution

/-!
Why every run ends. Jumps go backwards and calls recurse, so neither the program counter nor the
dump alone gets anywhere. But a jump backwards always pushes a frame, a pop always resumes past the
instruction that pushed, and the dump is bounded.

So read the dump as a numeral. Let `L` be the length of the code. A place `p` in the code has
`L + 1 - p` words ahead of it, which is less than the base `L + 2`; the digits, most significant
first, are what lies ahead of the frames, from the bottom up, and of the program counter. The first
digit stands at the greatest height that the dump may reach.

      dump   frame₀      frame₁      pc
      digit  ahead r₀    ahead r₁    ahead pc
      place  B^(c-1)     B^(c-2)     B^(c-3)

Each instruction makes this number smaller: an ordinary one lowers the last digit, a push lowers it
and adds a digit at the next place, and a pop drops the last digit, which was not zero.
-/

namespace Secd.Machine

/-- How many words lie ahead of an address, the end of the code included. -/
def ahead (code : Code) (pc : Nat) : Nat := code.size + 1 - pc

/-- The value of a place of the numeral: a power of the base. -/
def place (code : Code) : Nat → Nat
  | 0 => 1
  | room + 1 => (code.size + 2) * place code room

/-- The number whose digits are what lies ahead of the frames, the first at the place `room`. -/
def framesAhead (code : Code) : (room : Nat) → List Frame → Nat
  | _, [] => 0
  | room, frame :: frames =>
    ahead code frame.resume * place code room + framesAhead code (room - 1) frames

/-- An upper bound on the number of instructions that the machine can still execute. -/
def potential (code : Code) (m : Machine) : Nat :=
  framesAhead code (m.dump.capacity - 1) m.dump.items.toList +
    ahead code m.pc * place code (m.dump.capacity - 1 - m.dump.height)

theorem place_pos (code : Code) (room : Nat) : 0 < place code room := by
  induction room with
  | zero => exact Nat.one_pos
  | succ room ih => exact Nat.mul_pos (Nat.succ_pos _) ih

theorem framesAhead_concat (code : Code) (room : Nat) (frames : List Frame) (frame : Frame) :
    framesAhead code room (frames ++ [frame]) = framesAhead code room frames +
      ahead code frame.resume * place code (room - frames.length) := by
  induction frames generalizing room with
  | nil => simp [framesAhead]
  | cons f fs ih =>
    simp only [List.cons_append, framesAhead, ih, List.length_cons, Nat.add_assoc]
    rw [Nat.sub_right_comm, Nat.sub_sub]

/-! ### The three ways to go on -/

/-- What an instruction that does not stop the machine does to its control. -/
inductive Move (m m' : Machine) : Prop where
  /-- Goes on further down the code. -/
  | onward (later : m.pc < m'.pc) (dump : m'.dump = m.dump)
  /-- Leaves a frame that resumes further down, and goes on anywhere. -/
  | opening (frame : Frame) (later : m.pc < frame.resume)
      (room : m.dump.height + 1 < m.dump.capacity) (capacity : m'.dump.capacity = m.dump.capacity)
      (items : m'.dump.items = m.dump.items.push frame)
  /-- Goes on where the topmost frame says. -/
  | closing (frame : Frame) (resume : m'.pc = frame.resume)
      (capacity : m'.dump.capacity = m.dump.capacity)
      (items : m.dump.items = m'.dump.items.push frame)

theorem potential_lt_of_move {code : Code} {m m' : Machine} (inside : m.pc < code.size)
    (move : Move m m') : potential code m' < potential code m := by
  cases move with
  | onward later dump =>
    simp only [potential, dump]
    refine Nat.add_lt_add_left (Nat.mul_lt_mul_of_pos_right ?_ (place_pos code _)) _
    simp only [ahead]
    omega
  | opening frame later room capacity items =>
    simp only [Stack.height] at room
    obtain ⟨above, habove⟩ : ∃ above, m.dump.capacity - 1 - m.dump.items.size = above + 1 :=
      ⟨m.dump.capacity - 2 - m.dump.items.size, by omega⟩
    have habove' : m.dump.capacity - 1 - (m.dump.items.size + 1) = above := by omega
    simp only [potential, Stack.height, capacity, items, Array.toList_push, framesAhead_concat,
      Array.length_toList, Array.size_push, habove, habove', Nat.add_assoc]
    refine Nat.add_lt_add_left ?_ _
    have small : ahead code m'.pc * place code above < place code (above + 1) :=
      Nat.mul_lt_mul_of_pos_right (by simp only [ahead]; omega) (place_pos code above)
    calc _ < ahead code frame.resume * place code (above + 1) + place code (above + 1) :=
          Nat.add_lt_add_left small _
      _ = (ahead code frame.resume + 1) * place code (above + 1) := by
          rw [Nat.add_mul, Nat.one_mul]
      _ ≤ _ := Nat.mul_le_mul_right _ (by simp only [ahead]; omega)
  | closing frame resume capacity items =>
    simp only [potential, Stack.height, capacity, items, Array.toList_push, framesAhead_concat,
      Array.length_toList, resume]
    exact Nat.lt_add_of_pos_right
      (Nat.mul_pos (by simp only [ahead]; omega) (place_pos code _))

/-- Every instruction but HALT goes on in one of these ways. -/
theorem move_of_completes {code : Code} {op : Opcode} {m m' : Machine}
    (done : Completes code m op none m') : Move m m' := by
  cases done with
  | value => exact .onward (Nat.lt_of_lt_of_le (Nat.lt_succ_self _) (Nat.le_add_right _ _)) rfl
  | sel _ _ _ room =>
    exact .opening _ (Nat.lt_add_of_pos_right (Nat.zero_lt_succ 2)) room rfl rfl
  | ap _ _ room => exact .opening _ (Nat.lt_succ_self _) room rfl rfl
  | rtn items => exact .closing _ rfl rfl items
  | join items => exact .closing _ rfl rfl items

/-- Every step that does not stop the machine brings it nearer to its end. -/
theorem potential_lt_of_step {code : Code} {m m' : Machine} (h : step code m = .ok none m') :
    potential code m' < potential code m := by
  obtain ⟨op, found, done⟩ := completes_of_step h
  exact potential_lt_of_move (Code.lt_size_of_fetch? found) (move_of_completes done)

end Secd.Machine
