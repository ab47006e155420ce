import Mathlib.Logic.Relation
import Secd.Proofs.Control

/-!
Branches and calls are brackets. SEL and AP leave a frame on the dump, and whatever happens above
that frame, the step that brings the dump back to its height takes this frame off again: JOIN closes
what SEL has opened, and RTN what AP has opened. The machine then goes on behind the opening
instruction, with the dump and in the environment that it had there.

For the environment this is not obvious, as a branch frame does not save it. But every change of the
environment is a bracket too. The lowest call frame above the place where the dump was knows the
environment from before:

      dump     D │ branch   call e   branch   call f       env
                                e     is the environment at the opening SEL
      dump     D │ branch   branch                         env
                                no call is open, and `env` is that environment itself
-/

namespace Secd.Machine

open Relation

variable {code : Code} {m m' : Machine} {base : List Frame} {env : Env} {frame : Frame}

/-- The environment in which the lowest of these frames was left, the present one being `env`. -/
def outerEnv (env : Env) : List Frame → Env
  | [] => env
  | .branch _ :: frames => outerEnv env frames
  | .call _ saved :: _ => saved

@[simp] theorem outerEnv_concat_branch (frames : List Frame) (resume : Nat) :
    outerEnv env (frames ++ [.branch resume]) = outerEnv env frames := by
  induction frames with
  | nil => rfl
  | cons frame frames ih => cases frame <;> simp [outerEnv, ih]

@[simp] theorem outerEnv_concat_call (frames : List Frame) (resume : Nat) (saved : Env) :
    outerEnv env (frames ++ [.call resume saved]) = outerEnv saved frames := by
  induction frames with
  | nil => rfl
  | cons frame frames ih => cases frame <;> simp [outerEnv, ih]

/-- Above the frames `base`, the frame `frame` was left in the environment `env`. -/
def Opened (base : List Frame) (frame : Frame) (env : Env) (m : Machine) : Prop :=
  ∃ above, m.dump.items.toList = base ++ frame :: above ∧ outerEnv m.env (frame :: above) = env

/-- A step that succeeds and leaves more than `n` frames. -/
def StepsAbove (code : Code) (n : Nat) (m m' : Machine) : Prop :=
  (∃ result, step code m = .ok result m') ∧ n < m'.dump.height

/-- A frame that is taken off from above the frames `lower` was the topmost of those above them. -/
theorem exists_above_of_pop {lower above : List Frame} {frame : Frame}
    (popped : m.dump.items = m'.dump.items.push frame)
    (items : m.dump.items.toList = lower ++ above) (height : lower.length ≤ m'.dump.height) :
    ∃ above', above = above' ++ [frame] ∧ m'.dump.items.toList = lower ++ above' := by
  rw [popped, Array.toList_push] at items
  rcases List.eq_nil_or_concat above with rfl | ⟨above', last, rfl⟩
  · have lengths := congrArg List.length items
    simp only [List.length_append, List.length_singleton, List.append_nil,
      Array.length_toList] at lengths
    simp only [Stack.height] at height
    omega
  · rw [List.concat_eq_append, ← List.append_assoc] at items
    obtain ⟨rest, same⟩ := List.append_inj' items rfl
    cases same
    exact ⟨above', List.concat_eq_append, rest⟩

/-- What happens above the opened frame leaves it open, and leaves its environment. -/
theorem Opened.step {result : Option Value} (isOpen : Opened base frame env m)
    (stepped : Machine.step code m = .ok result m') (higher : base.length < m'.dump.height) :
    Opened base frame env m' := by
  obtain ⟨above, items, outer⟩ := isOpen
  have height : (base ++ [frame]).length ≤ m'.dump.height := by
    rwa [List.length_append, List.length_singleton]
  have items' : m.dump.items.toList = base ++ [frame] ++ above := by simpa using items
  obtain ⟨op, -, transfers⟩ := transfers_of_step stepped
  cases transfers with
  | onward _ _ sameEnv dump => exact ⟨above, dump ▸ items, sameEnv ▸ outer⟩
  | sel _ _ _ _ sameEnv pushed =>
    refine ⟨above ++ [.branch (m.pc + 3)], by simp [pushed, items], ?_⟩
    rw [sameEnv, ← List.cons_append, outerEnv_concat_branch, outer]
  | ap _ _ _ pushed =>
    refine ⟨above ++ [.call (m.pc + 1) m.env], by simp [pushed, items], ?_⟩
    rw [← List.cons_append, outerEnv_concat_call, outer]
  | rtn popped _ restored =>
    obtain ⟨rest, rfl, items''⟩ := exists_above_of_pop popped items' height
    refine ⟨rest, by simpa using items'', ?_⟩
    rw [← outer, ← List.cons_append, outerEnv_concat_call, restored]
  | join popped _ sameEnv =>
    obtain ⟨rest, rfl, items''⟩ := exists_above_of_pop popped items' height
    refine ⟨rest, by simpa using items'', ?_⟩
    rw [← outer, ← List.cons_append, outerEnv_concat_branch, sameEnv]

/-- The frame stays open for as long as the dump stays higher than below it. -/
theorem Opened.steps (isOpen : Opened base frame env m)
    (inside : ReflTransGen (StepsAbove code base.length) m m') : Opened base frame env m' := by
  induction inside with
  | refl => exact isOpen
  | tail _ step ih =>
    obtain ⟨⟨result, stepped⟩, higher⟩ := step
    exact ih.step stepped higher

/-- SEL and AP open a frame in the environment that they find. -/
theorem Transfers.opened {op : Opcode} (transfers : Transfers code m m' op)
    (opens : op = .sel ∨ op = .ap) :
    ∃ frame, Opened m.dump.items.toList frame m.env m' ∧
      (op = .sel ∧ frame = .branch (m.pc + 3) ∨ op = .ap ∧ frame = .call (m.pc + 1) m.env) := by
  cases transfers with
  | onward plain => rcases opens with rfl | rfl <;> cases plain
  | sel _ _ _ _ sameEnv pushed =>
    refine ⟨.branch (m.pc + 3), ⟨[], by simp [pushed], ?_⟩, .inl ⟨rfl, rfl⟩⟩
    rw [sameEnv]
    rfl
  | ap _ _ _ pushed =>
    exact ⟨.call (m.pc + 1) m.env, ⟨[], by simp [pushed], rfl⟩, .inr ⟨rfl, rfl⟩⟩
  | rtn => rcases opens with h | h <;> cases h
  | join => rcases opens with h | h <;> cases h

/-- The step that comes back to the height below the opened frame takes just this frame off. -/
theorem exists_pop_of_back {top : Frame} (isOpen : Opened base frame env m)
    (popped : m.dump.items = m'.dump.items.push top) (back : m'.dump.height = base.length) :
    top = frame ∧ m'.dump.items.toList = base ∧ outerEnv m.env [frame] = env := by
  obtain ⟨above, items, outer⟩ := isOpen
  obtain ⟨rest, split, items'⟩ := exists_above_of_pop popped items (Nat.le_of_eq back.symm)
  have lengths := congrArg List.length items'
  simp only [Array.length_toList, List.length_append] at lengths
  simp only [Stack.height] at back
  obtain rfl : rest = [] := List.eq_nil_of_length_eq_zero (by omega)
  rw [List.nil_append, List.cons.injEq] at split
  obtain ⟨rfl, rfl⟩ := split
  exact ⟨rfl, by simpa using items', outer⟩

/-- As long as a frame is open the dump is higher than below it. -/
theorem Opened.higher (isOpen : Opened base frame env m) : base.length < m.dump.height := by
  obtain ⟨above, items, -⟩ := isOpen
  have lengths := congrArg List.length items
  simp only [Array.length_toList, List.length_append, List.length_cons] at lengths
  simp only [Stack.height]
  omega

/-- An opened frame is closed by the instruction that pops frames of its kind; dump, environment and
address are then those to which the frame belongs. -/
theorem Opened.closed {op : Opcode} (isOpen : Opened base frame env m)
    (transfers : Transfers code m m' op) (back : m'.dump.height = base.length) :
    op = Fault.popper frame.kind ∧ m'.dump.items.toList = base ∧ m'.env = env ∧
      m'.pc = frame.resume := by
  have higher := isOpen.higher
  cases transfers with
  | onward _ _ _ dump =>
    rw [dump] at back
    omega
  | sel _ _ _ _ _ pushed =>
    simp only [Stack.height, pushed, Array.size_push] at back higher
    omega
  | ap _ _ _ pushed =>
    simp only [Stack.height, pushed, Array.size_push] at back higher
    omega
  | rtn popped pc restored =>
    obtain ⟨rfl, items, outer⟩ := exists_pop_of_back isOpen popped back
    exact ⟨rfl, items, restored.trans outer, pc⟩
  | join popped pc sameEnv =>
    obtain ⟨rfl, items, outer⟩ := exists_pop_of_back isOpen popped back
    exact ⟨rfl, items, sameEnv.trans outer, pc⟩

/-- However a machine was reached: after SEL or AP, the first step that brings the dump back to its
height is JOIN or RTN, respectively, and leads behind that instruction, with the dump and in the
environment that it found. -/
theorem closes_where_opened {opener closer : Opcode} {m m₁ m₂ m₃ : Machine}
    (opens : opener = .sel ∨ opener = .ap) (opening : Performs code opener m m₁)
    (inside : ReflTransGen (StepsAbove code m.dump.height) m₁ m₂)
    (closing : Performs code closer m₂ m₃) (back : m₃.dump.height = m.dump.height) :
    (opener = .sel ∧ closer = .join ∧ m₃.pc = m.pc + 3 ∨
        opener = .ap ∧ closer = .rtn ∧ m₃.pc = m.pc + 1) ∧
      m₃.dump.items = m.dump.items ∧ m₃.env = m.env := by
  obtain ⟨frame, isOpen, kind⟩ := opening.transfers.opened opens
  rw [Stack.height, ← Array.length_toList] at inside back
  have stillOpen : Opened m.dump.items.toList frame m.env m₂ := isOpen.steps inside
  obtain ⟨closes, items, sameEnv, pc⟩ := stillOpen.closed closing.transfers back
  refine ⟨?_, Array.toList_inj.1 items, sameEnv⟩
  rcases kind with ⟨rfl, rfl⟩ | ⟨rfl, rfl⟩
  · exact .inl ⟨rfl, closes, pc⟩
  · exact .inr ⟨rfl, closes, pc⟩

/-- A branch that calls a function: five steps lie between SEL at address 2 and its JOIN, and after
three of them the machine is in the environment of the function. -/
theorem closes_where_opened_around_call :
    ∃ (code : Code) (m m₁ inCall m₂ m₃ : Machine),
      Performs code .sel m m₁ ∧ ReflTransGen (StepsAbove code m.dump.height) m₁ inCall ∧
      ReflTransGen (StepsAbove code m.dump.height) inCall m₂ ∧ Performs code .join m₂ m₃ ∧
      m₃.dump.height = m.dump.height ∧ inCall.env ≠ m.env ∧ m₃.env = m.env ∧ m₃.pc = m.pc + 3 := by
  let code : Code := ⟨65536, #[1, 0, 6, 6, 6, 0, 7, 12, 1, 7, 9, 11, 2, 0, 10]⟩
  let state (pc : Nat) (env : Env) (stack : Array Value) (dump : Array Frame) (cells : Array Cell)
    (peak peakDump steps : Nat) : Machine :=
    ⟨pc, env, ⟨.stack, 9, stack, peak⟩, ⟨.dump, 9, dump, peakDump⟩, ⟨9, cells⟩, steps⟩
  let f : Cell := .closure ⟨12, none⟩
  let x : Cell := .binding (.int 7) none
  have opening : Performs code .sel (state 2 none #[.int 0] #[] #[] 1 0 1)
      (state 6 none #[] #[.branch 5] #[] 1 1 2) := ⟨rfl, none, rfl⟩
  have ldf : StepsAbove code 0 (state 6 none #[] #[.branch 5] #[] 1 1 2)
      (state 8 none #[.closure 0] #[.branch 5] #[f] 1 1 3) := ⟨⟨none, rfl⟩, Nat.one_pos⟩
  have ldc : StepsAbove code 0 (state 8 none #[.closure 0] #[.branch 5] #[f] 1 1 3)
      (state 10 none #[.closure 0, .int 7] #[.branch 5] #[f] 2 1 4) := ⟨⟨none, rfl⟩, Nat.one_pos⟩
  have ap : StepsAbove code 0 (state 10 none #[.closure 0, .int 7] #[.branch 5] #[f] 2 1 4)
      (state 12 (some 1) #[] #[.branch 5, .call 11 none] #[f, x] 2 2 5) :=
    ⟨⟨none, rfl⟩, Nat.two_pos⟩
  have ld : StepsAbove code 0 (state 12 (some 1) #[] #[.branch 5, .call 11 none] #[f, x] 2 2 5)
      (state 14 (some 1) #[.int 7] #[.branch 5, .call 11 none] #[f, x] 2 2 6) :=
    ⟨⟨none, rfl⟩, Nat.two_pos⟩
  have rtn : StepsAbove code 0
      (state 14 (some 1) #[.int 7] #[.branch 5, .call 11 none] #[f, x] 2 2 6)
      (state 11 none #[.int 7] #[.branch 5] #[f, x] 2 2 7) := ⟨⟨none, rfl⟩, Nat.one_pos⟩
  have closing : Performs code .join (state 11 none #[.int 7] #[.branch 5] #[f, x] 2 2 7)
      (state 5 none #[.int 7] #[] #[f, x] 2 2 8) := ⟨rfl, none, rfl⟩
  have before := ((ReflTransGen.single ldf).tail ldc).tail ap
  have after := (ReflTransGen.single ld).tail rtn
  obtain ⟨⟨-, -, pc⟩ | ⟨h, -⟩, -, env⟩ :=
    closes_where_opened (.inl rfl) opening (before.trans after) closing rfl
  · exact ⟨code, _, _, _, _, _, opening, before, after, closing, rfl, nofun, env, pc⟩
  · cases h

end Secd.Machine
