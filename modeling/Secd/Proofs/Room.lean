import Secd.Proofs.Composition
import Secd.Proofs.Steps

/-!
Capacities decide whether a run fits, and nothing else. Two machines that differ in their capacities
only do the same until one of them meets a full store. So let a run end in anything but a full
store, and look at what it used: its greatest heights and its cells. Under other capacities the same
run happens, step by step and to the same end, exactly if that much fits; if it does not, the run
stops at a store that is too small for it.

      stack, dump   used 0, or used < capacity      a stack stays below its capacity
      heap          used ≤ capacity                 a heap may be filled

What has been used never gets less. A store that some part of an instruction finds too small is
therefore too small for the whole run, even if the instruction then fails for another reason.
-/

namespace Secd

open Effect

/-- What was used of a store fits into its capacity. -/
def Stats.Fits (s : Stats) (caps : Capacities) : Segment → Prop
  | .code => True
  | .stack => s.peakStack = 0 ∨ s.peakStack < caps.stack
  | .dump => s.peakDump = 0 ∨ s.peakDump < caps.dump
  | .heap => s.heapCells ≤ caps.heap

/-! ### Stacks and heaps of other capacities -/

namespace Stack

variable {α β γ : Type} {s : Stack α}

/-- The stack with another capacity. -/
def resize (s : Stack α) (capacity : Nat) : Stack α := { s with capacity }

/-- A stack of the same name has been at least as high. -/
def Later (s t : Stack α) : Prop := t.segment = s.segment ∧ s.peak ≤ t.peak

theorem Later.refl (s : Stack α) : s.Later s := ⟨rfl, Nat.le_refl _⟩

theorem Later.trans {s t u : Stack α} (first : s.Later t) (second : t.Later u) : s.Later u :=
  ⟨second.1.trans first.1, Nat.le_trans first.2 second.2⟩

/-- A push is refused at once, or it is done, and then the other capacity decides. -/
theorem push_resize (s : Stack α) (a : α) (capacity : Nat) :
    push a s = .error (.exhausted s.segment s.capacity) s ∨
      push a s = .ok () (s.pushed a) ∧
        (s.height + 1 < capacity ∧
            push a (s.resize capacity) = .ok () ((s.pushed a).resize capacity) ∨
          capacity ≤ s.height + 1 ∧
            push a (s.resize capacity) = .error (.exhausted s.segment capacity)
              (s.resize capacity)) := by
  by_cases room : s.height + 1 < s.capacity
  · refine .inr ⟨push_of_room room, ?_⟩
    by_cases room' : s.height + 1 < capacity
    · exact .inl ⟨room', push_of_room room'⟩
    · exact .inr ⟨Nat.not_lt.1 room', push_of_full room'⟩
  · exact .inl (push_of_full room)

/-- The effect takes items off, whatever the capacity is, and touches nothing else. -/
def Takes (a : Effect (Stack α) β) : Prop :=
  ∀ s : Stack α, ∃ rest,
    (∃ x, ∀ capacity, a (s.resize capacity) = .ok x ((s.withItems rest).resize capacity)) ∨
      ∃ fault, ∀ capacity, a (s.resize capacity) = .error fault ((s.withItems rest).resize capacity)

theorem takes_pop : Takes (pop : Effect (Stack α) α) := by
  intro s
  by_cases empty : s.items = #[]
  · exact ⟨s.items, .inr ⟨.underflow s.segment, fun _ => pop_of_empty empty⟩⟩
  · obtain ⟨rest, a, items⟩ := Array.exists_push_of_ne_empty empty
    exact ⟨rest, .inl ⟨a, fun _ => pop_of_push items⟩⟩

/-- An item that was taken off may still be refused. -/
theorem Takes.bind {a : Effect (Stack α) β} {f : β → Effect (Stack α) γ} (takes : Takes a)
    (accepts : ∀ x, (∃ y, f x = pure y) ∨ ∃ fault, f x = throw fault) : Takes (a >>= f) := by
  intro s
  obtain ⟨rest, ⟨x, ok⟩ | ⟨fault, error⟩⟩ := takes s
  · rcases accepts x with ⟨y, hf⟩ | ⟨fault, hf⟩
    · refine ⟨rest, .inl ⟨y, fun capacity => ?_⟩⟩
      rw [bind_of_ok (ok capacity), hf]
      rfl
    · refine ⟨rest, .inr ⟨fault, fun capacity => ?_⟩⟩
      rw [bind_of_ok (ok capacity), hf]
      rfl
  · refine ⟨rest, .inr ⟨fault, fun capacity => ?_⟩⟩
    exact bind_eq_error_iff.2 (.inl (error capacity))

theorem takes_popInt : Takes popInt := by
  refine takes_pop.bind fun value => ?_
  cases value with
  | int n => exact .inl ⟨n, rfl⟩
  | closure cell => exact .inr ⟨_, rfl⟩

theorem takes_popClosure : Takes popClosure := by
  refine takes_pop.bind fun value => ?_
  cases value with
  | int n => exact .inr ⟨_, rfl⟩
  | closure cell => exact .inl ⟨cell, rfl⟩

theorem takes_popBranch : Takes popBranch := by
  refine takes_pop.bind fun frame => ?_
  cases frame with
  | branch resume => exact .inl ⟨resume, rfl⟩
  | call resume env => exact .inr ⟨_, rfl⟩

theorem takes_popCall : Takes popCall := by
  refine takes_pop.bind fun frame => ?_
  cases frame with
  | branch resume => exact .inr ⟨_, rfl⟩
  | call resume env => exact .inl ⟨(resume, env), rfl⟩

end Stack

namespace Heap

variable {α : Type}

/-- The heap with another capacity. -/
def resize (h : Heap) (capacity : Nat) : Heap := { h with capacity }

/-- The effect appends cells, which do not depend on the capacity, or the heap is too small for
them. -/
def Appends (a : Effect Heap α) : Prop :=
  ∀ h : Heap, ∃ x cells, ∀ capacity,
    (h.size + cells.size ≤ capacity →
      a (h.resize capacity) = .ok x ((h.append cells).resize capacity)) ∧
    (capacity < h.size + cells.size →
      ∃ h', a (h.resize capacity) = .error (.exhausted .heap capacity) h')

theorem appends_extend (value : Value) (env : Env) : Appends (extend value env) := by
  intro h
  refine ⟨some h.size, #[.binding value env], fun capacity => ⟨fun room => ?_, fun full => ?_⟩⟩
  · refine eq_ok_of_ends (ends_extend.2 ⟨fun _ => ⟨rfl, rfl⟩, fun full => ?_⟩)
    exact absurd room (Nat.not_le.2 (Nat.lt_succ_of_le full))
  · refine eq_error_of_ends (ends_extend.2 ⟨fun room => ?_, fun _ => rfl⟩)
    exact absurd full (Nat.not_lt.2 room)

theorem appends_capture (entry : Nat) (env : Env) : Appends (capture entry env) := by
  intro h
  refine ⟨h.size, #[.closure ⟨entry, env⟩], fun capacity => ⟨fun room => ?_, fun full => ?_⟩⟩
  · refine eq_ok_of_ends (ends_capture.2 ⟨fun _ => ⟨rfl, rfl⟩, fun full => ?_⟩)
    exact absurd room (Nat.not_le.2 (Nat.lt_succ_of_le full))
  · refine eq_error_of_ends (ends_capture.2 ⟨fun room => ?_, fun _ => rfl⟩)
    exact absurd full (Nat.not_lt.2 room)

/-- A recursive closure takes two cells; with one of them free it is refused as well. -/
theorem appends_captureRec (entry : Nat) (env : Env) : Appends (captureRec entry env) := by
  intro h
  refine ⟨h.size + 1, #[.binding (.closure (h.size + 1)) env, .closure ⟨entry, some h.size⟩],
    fun capacity => ⟨fun room => ?_, fun full => ?_⟩⟩
  · have room : h.size + 2 ≤ capacity := room
    refine eq_ok_of_ends (ends_captureRec.2 ⟨fun _ => ⟨rfl, rfl⟩, fun one => ?_, fun full => ?_⟩)
    · have one : h.size + 1 = capacity := one
      omega
    · have full : capacity ≤ h.size := full
      omega
  · refine eq_error_of_ends (ends_captureRec.2 ⟨fun two => ?_, fun _ => rfl, fun _ => rfl⟩)
    exact absurd full (Nat.not_lt.2 two)

end Heap

/-! ### Machines of other capacities -/

namespace Machine

/-- The machine with other capacities. -/
def resize (caps : Capacities) (m : Machine) : Machine :=
  { m with stack := m.stack.resize caps.stack, dump := m.dump.resize caps.dump,
           heap := m.heap.resize caps.heap }

/-- The two stacks are named for what they are. -/
structure Named (m : Machine) : Prop where
  stack : m.stack.segment = .stack
  dump : m.dump.segment = .dump

/-- A machine has used at least as much of every store. -/
structure Later (m t : Machine) : Prop where
  stack : m.stack.Later t.stack
  dump : m.dump.Later t.dump
  heap : m.heap.size ≤ t.heap.size

/-- The machine that is left when a computation ends. -/
def left {ε α : Type} : EStateM.Result ε Machine α → Machine
  | .ok _ m => m
  | .error _ m => m

/-- The same end of a computation, on a machine with other capacities. -/
def resized {ε α : Type} (caps : Capacities) :
    EStateM.Result ε Machine α → EStateM.Result ε Machine α
  | .ok x m => .ok x (m.resize caps)
  | .error e m => .error e (m.resize caps)

/-- How a computation from `m` ends, and how it ends under other capacities. -/
inductive Scaled {ε α : Type} (faultOf : ε → Fault) (caps : Capacities) (m : Machine) :
    EStateM.Result ε Machine α → EStateM.Result ε Machine α → Prop where
  /-- All that was used fits, so it ends in the same way. -/
  | same {r : EStateM.Result ε Machine α} (later : m.Later (left r))
      (fits : ∀ segment, m.stats.Fits caps segment → (left r).stats.Fits caps segment) :
      Scaled faultOf caps m r (resized caps r)
  /-- It ends at a store that is too small for what was used. -/
  | tight {r : EStateM.Result ε Machine α} {segment : Segment} {e : ε} {m' : Machine}
      (later : m.Later (left r)) (lacks : ¬ (left r).stats.Fits caps segment)
      (fault : faultOf e = .exhausted segment (caps.get segment)) :
      Scaled faultOf caps m r (.error e m')
  /-- Nothing is said if a store was full under the first capacities. -/
  | full {segment : Segment} {capacity : Nat} {e : ε} {m' : Machine}
      {r : EStateM.Result ε Machine α} (fault : faultOf e = .exhausted segment capacity) :
      Scaled faultOf caps m (.error e m') r

variable {ε α β : Type} {faultOf : ε → Fault} {caps : Capacities} {m t u : Machine} {code : Code}

theorem Later.trans (first : m.Later t) (second : t.Later u) : m.Later u :=
  ⟨first.stack.trans second.stack, first.dump.trans second.dump,
    Nat.le_trans first.heap second.heap⟩

theorem Later.named (later : m.Later t) (named : m.Named) : t.Named :=
  ⟨later.stack.1.trans named.stack, later.dump.1.trans named.dump⟩

/-- What fits later has fitted all along. -/
theorem Later.fits {segment : Segment} (later : m.Later t) (fits : t.stats.Fits caps segment) :
    m.stats.Fits caps segment := by
  obtain ⟨⟨-, stack⟩, ⟨-, dump⟩, heap⟩ := later
  cases segment with
  | code => trivial
  | stack =>
    simp only [Stats.Fits, stats] at fits ⊢
    omega
  | dump =>
    simp only [Stats.Fits, stats] at fits ⊢
    omega
  | heap => exact Nat.le_trans heap fits

/-- What holds from a later machine on holds from an earlier one on. -/
theorem Scaled.of_later {r r' : EStateM.Result ε Machine α} (later : m.Later t)
    (fits : ∀ segment, m.stats.Fits caps segment → t.stats.Fits caps segment)
    (h : Scaled faultOf caps t r r') : Scaled faultOf caps m r r' := by
  cases h with
  | same later' fits' => exact .same (later.trans later') fun s h => fits' s (fits s h)
  | tight later' lacks fault => exact .tight (later.trans later') lacks fault
  | full fault => exact .full fault

/-- Once a store was too small, it stays so to the end of the sequence. -/
theorem Scaled.of_tight {r r' : EStateM.Result ε Machine α} {segment : Segment} {e : ε}
    (later : m.Later t) (lacks : ¬ t.stats.Fits caps segment)
    (fault : faultOf e = .exhausted segment (caps.get segment))
    (h : Scaled faultOf caps t r r') : Scaled faultOf caps m r (.error e u) := by
  cases h with
  | same later' _ => exact .tight (later.trans later') (fun fits => lacks (later'.fits fits)) fault
  | tight later' _ _ =>
    exact .tight (later.trans later') (fun fits => lacks (later'.fits fits)) fault
  | full fault' => exact .full fault'

theorem Scaled.bind {a : EStateM ε Machine α} {f : α → EStateM ε Machine β}
    (first : Scaled faultOf caps m (a m) (a (m.resize caps)))
    (second : ∀ x t, m.Later t → Scaled faultOf caps t (f x t) (f x (t.resize caps))) :
    Scaled faultOf caps m ((a >>= f) m) ((a >>= f) (m.resize caps)) := by
  change Scaled faultOf caps m (EStateM.bind a f m) (EStateM.bind a f (m.resize caps))
  unfold EStateM.bind
  generalize a m = r at first
  generalize a (m.resize caps) = r' at first
  cases first with
  | same later fits =>
    cases r with
    | ok x t => exact (second x t later).of_later later fits
    | error e t => exact .same later fits
  | tight later lacks fault =>
    cases r with
    | ok x t => exact .of_tight later lacks fault (second x t later)
    | error e t => exact .tight later lacks fault
  | full fault => exact .full fault

/-! ### The parts of an instruction -/

/-- A computation does the same under other capacities, as far as these go. -/
def Scales (caps : Capacities) (a : Effect Machine α) : Prop :=
  ∀ m : Machine, m.Named → Scaled id caps m (a m) (a (m.resize caps))

/-- What leaves the three stores alone ends alike under all capacities. -/
theorem Scaled.of_eq {r : EStateM.Result ε Machine α} (stack : (left r).stack = m.stack)
    (dump : (left r).dump = m.dump) (heap : (left r).heap = m.heap) :
    Scaled faultOf caps m r (resized caps r) := by
  have later : m.Later (left r) := ⟨stack ▸ .refl _, dump ▸ .refl _, heap ▸ Nat.le_refl _⟩
  have back : (left r).Later m := ⟨stack ▸ .refl _, dump ▸ .refl _, heap ▸ Nat.le_refl _⟩
  exact .same later fun _ fits => back.fits fits

theorem Scales.bind {a : Effect Machine α} {f : α → Effect Machine β} (first : Scales caps a)
    (second : ∀ x, Scales caps (f x)) : Scales caps (a >>= f) :=
  fun m named => (first m named).bind fun x t later => second x t (later.named named)

theorem Scales.bind_get {f : Machine → Effect Machine α}
    (reads : ∀ m, f (m.resize caps) = f m) (rest : ∀ m, Scales caps (f m)) :
    Scales caps (get >>= f) := by
  intro m named
  change Scaled id caps m (f m m) (f (m.resize caps) (m.resize caps))
  rw [reads]
  exact rest m m named

theorem scales_check (r : Except Fault α) : Scales caps (check r) := by
  intro m named
  cases r with
  | ok x => exact .of_eq rfl rfl rfl
  | error fault => exact .of_eq rfl rfl rfl

theorem scales_fetch (code : Code) : Scales caps (fetch code) := by
  intro m named
  cases found : code.fetch? m.pc with
  | none =>
    have missing : code.fetch? (m.resize caps).pc = none := found
    rw [fetch_of_none found, fetch_of_none missing]
    exact .of_eq rfl rfl rfl
  | some word =>
    have found' : code.fetch? (m.resize caps).pc = some word := found
    rw [fetch_of_some found, fetch_of_some found']
    exact .of_eq rfl rfl rfl

theorem scales_onStack {a : Effect (Stack Value) α} (takes : Stack.Takes a) :
    Scales caps (onStack a) := by
  intro m named
  obtain ⟨rest, ⟨x, ok⟩ | ⟨fault, error⟩⟩ := takes m.stack
  · have here : a m.stack = _ := ok m.stack.capacity
    have there : a (m.resize caps).stack = _ := ok caps.stack
    rw [onStack_eq, onStack_eq, here, there]
    exact .same ⟨.refl m.stack, .refl _, Nat.le_refl _⟩ fun _ fits => fits
  · have here : a m.stack = _ := error m.stack.capacity
    have there : a (m.resize caps).stack = _ := error caps.stack
    rw [onStack_eq, onStack_eq, here, there]
    exact .same ⟨.refl m.stack, .refl _, Nat.le_refl _⟩ fun _ fits => fits

theorem scales_onDump {a : Effect (Stack Frame) α} (takes : Stack.Takes a) :
    Scales caps (onDump a) := by
  intro m named
  obtain ⟨rest, ⟨x, ok⟩ | ⟨fault, error⟩⟩ := takes m.dump
  · have here : a m.dump = _ := ok m.dump.capacity
    have there : a (m.resize caps).dump = _ := ok caps.dump
    rw [onDump_eq, onDump_eq, here, there]
    exact .same ⟨.refl _, .refl m.dump, Nat.le_refl _⟩ fun _ fits => fits
  · have here : a m.dump = _ := error m.dump.capacity
    have there : a (m.resize caps).dump = _ := error caps.dump
    rw [onDump_eq, onDump_eq, here, there]
    exact .same ⟨.refl _, .refl m.dump, Nat.le_refl _⟩ fun _ fits => fits

theorem scales_push (value : Value) : Scales caps (onStack (Stack.push value)) := by
  intro m named
  rw [onStack_eq, onStack_eq]
  have later : m.Later { m with stack := m.stack.pushed value } :=
    ⟨⟨rfl, Nat.le_max_left _ _⟩, .refl _, Nat.le_refl _⟩
  rcases m.stack.push_resize value caps.stack with refused | ⟨done, ⟨room, done'⟩ | ⟨small, full⟩⟩
  · rw [refused]
    exact .full rfl
  · have there : Stack.push value (m.resize caps).stack = _ := done'
    rw [done, there]
    refine .same later fun segment fits => ?_
    cases segment with
    | stack =>
      simp only [Stats.Fits, stats, left, Stack.pushed] at fits ⊢
      omega
    | code | dump | heap => exact fits
  · have there : Stack.push value (m.resize caps).stack = _ := full
    have lacks : ¬ Stats.Fits (stats { m with stack := m.stack.pushed value }) caps .stack := by
      simp only [Stats.Fits, stats, Stack.pushed]
      omega
    rw [done, there, named.stack]
    exact .tight later lacks rfl

theorem scales_pushFrame (frame : Frame) : Scales caps (onDump (Stack.push frame)) := by
  intro m named
  rw [onDump_eq, onDump_eq]
  have later : m.Later { m with dump := m.dump.pushed frame } :=
    ⟨.refl _, ⟨rfl, Nat.le_max_left _ _⟩, Nat.le_refl _⟩
  rcases m.dump.push_resize frame caps.dump with refused | ⟨done, ⟨room, done'⟩ | ⟨small, full⟩⟩
  · rw [refused]
    exact .full rfl
  · have there : Stack.push frame (m.resize caps).dump = _ := done'
    rw [done, there]
    refine .same later fun segment fits => ?_
    cases segment with
    | dump =>
      simp only [Stats.Fits, stats, left, Stack.pushed] at fits ⊢
      omega
    | code | stack | heap => exact fits
  · have there : Stack.push frame (m.resize caps).dump = _ := full
    have lacks : ¬ Stats.Fits (stats { m with dump := m.dump.pushed frame }) caps .dump := by
      simp only [Stats.Fits, stats, Stack.pushed]
      omega
    rw [done, there, named.dump]
    exact .tight later lacks rfl

theorem scales_onHeap {a : Effect Heap α} (appends : Heap.Appends a) : Scales caps (onHeap a) := by
  intro m named
  obtain ⟨x, cells, appended⟩ := appends m.heap
  rw [onHeap_eq, onHeap_eq]
  have size : (m.heap.append cells).size = m.heap.size + cells.size := Array.size_append
  have later : m.Later { m with heap := m.heap.append cells } :=
    ⟨.refl _, .refl _, size ▸ Nat.le_add_right _ _⟩
  by_cases room : m.heap.size + cells.size ≤ m.heap.capacity
  · have here : a m.heap = _ := (appended m.heap.capacity).1 room
    by_cases room' : m.heap.size + cells.size ≤ caps.heap
    · have there : a (m.resize caps).heap = _ := (appended caps.heap).1 room'
      rw [here, there]
      refine .same later fun segment fits => ?_
      cases segment with
      | heap => exact Nat.le_trans (Nat.le_of_eq size) room'
      | code | stack | dump => exact fits
    · obtain ⟨h', there⟩ := (appended caps.heap).2 (Nat.not_le.1 room')
      have there : a (m.resize caps).heap = _ := there
      have lacks : ¬ Stats.Fits (stats { m with heap := m.heap.append cells }) caps .heap :=
        fun fits => room' (Nat.le_trans (Nat.le_of_eq size.symm) fits)
      rw [here, there]
      exact .tight later lacks rfl
  · obtain ⟨h', here⟩ := (appended m.heap.capacity).2 (Nat.not_le.1 room)
    have here : a m.heap = _ := here
    rw [here]
    exact .full rfl

/-- What is composed of parts that scale does so as well. -/
theorem Composed.scales {a : Code → Effect Machine α} (composed : Composed a) (code : Code) :
    Scales caps (a code) := by
  induction composed with
  | pure x => exact fun _ _ => .of_eq rfl rfl rfl
  | throw fault => exact fun _ _ => .of_eq rfl rfl rfl
  | check r => exact scales_check r
  | address target => exact scales_check _
  | fetch => exact scales_fetch code
  | push value => exact scales_push value
  | pop => exact scales_onStack Stack.takes_pop
  | popInt => exact scales_onStack Stack.takes_popInt
  | popClosure => exact scales_onStack Stack.takes_popClosure
  | pushFrame frame => exact scales_pushFrame frame
  | popBranch => exact scales_onDump Stack.takes_popBranch
  | popCall => exact scales_onDump Stack.takes_popCall
  | extend value env => exact scales_onHeap (Heap.appends_extend value env)
  | capture entry env => exact scales_onHeap (Heap.appends_capture entry env)
  | captureRec entry env => exact scales_onHeap (Heap.appends_captureRec entry env)
  | jump | enter | count => exact fun _ _ => .of_eq rfl rfl rfl
  | read alike _ ih =>
    exact .bind_get (fun m => congrFun (alike m (m.resize caps) ⟨rfl, rfl, rfl⟩) code) ih
  | bind _ _ first second => exact first.bind second

/-! ### Steps and runs -/

/-- A step depends on the words of the code alone. -/
theorem step_of_words {code' : Code} (words : code'.words = code.words) :
    step code' = step code := by
  cases code
  cases code'
  subst words
  rfl

theorem Named.scaled_step (named : m.Named) (code : Code) :
    Scaled Trap.fault caps m (step code m) (step code (m.resize caps)) := by
  have instruction : Scaled id caps m ((decode code >>= exec code) m)
      ((decode code >>= exec code) (m.resize caps)) :=
    Composed.instruction.scales code m named
  rw [step_eq, step_eq]
  generalize (decode code >>= exec code) m = r at instruction
  generalize (decode code >>= exec code) (m.resize caps) = r' at instruction
  cases instruction with
  | same later fits =>
    cases r with
    | ok x t => exact .same later fits
    | error e t => exact .same later fits
  | tight later lacks fault =>
    cases r with
    | ok x t => exact .tight later lacks fault
    | error e t => exact .tight later lacks fault
  | full fault => exact .full fault

/-- Steps that scale make runs that scale: either each step is the same, or at one of them a store
is too small for what follows. -/
theorem Named.scaled_run (named : m.Named) {code' : Code} (words : code'.words = code.words) :
    Scaled Trap.fault caps m (run code m) (run code' (m.resize caps)) := by
  rw [run_eq code', step_of_words words]
  fun_induction run code m with
  | case1 m value m' stepped =>
    have scaled : Scaled Trap.fault caps m (step code m) _ := named.scaled_step code
    rw [stepped] at scaled
    generalize step code (m.resize caps) = r' at scaled ⊢
    cases scaled with
    | same later fits => exact .same later fits
    | tight later lacks fault => exact .tight later lacks fault
  | case2 m m' stepped ih =>
    have scaled : Scaled Trap.fault caps m (step code m) _ := named.scaled_step code
    rw [stepped] at scaled
    generalize step code (m.resize caps) = r' at scaled ⊢
    cases scaled with
    | same later fits =>
      have rest := ih (later.named named)
      rw [← step_of_words words, ← run_eq] at rest
      exact rest.of_later later fits
    -- the first run goes on, but what it has used by now does not get less
    | tight later lacks fault => exact .of_tight later lacks fault (ih (later.named named))
  | case3 m trap m' stepped =>
    have scaled : Scaled Trap.fault caps m (step code m) _ := named.scaled_step code
    rw [stepped] at scaled
    generalize step code (m.resize caps) = r' at scaled ⊢
    cases scaled with
    | same later fits => exact .same later fits
    | tight later lacks fault => exact .tight later lacks fault
    | full fault => exact .full fault

/-- The machines hold the same, and have used the same. -/
structure Same (m m' : Machine) : Prop where
  pc : m'.pc = m.pc
  env : m'.env = m.env
  stack : m'.stack.items = m.stack.items
  dump : m'.dump.items = m.dump.items
  heap : m'.heap.cells = m.heap.cells
  stats : m'.stats = m.stats

/-- Two runs have the same outcome and leave machines that hold the same. -/
def SameRun : EStateM.Result Trap Machine Value → EStateM.Result Trap Machine Value → Prop
  | .ok value m, .ok value' m' => value' = value ∧ m.Same m'
  | .error trap m, .error trap' m' => trap' = trap ∧ m.Same m'
  | _, _ => False

/-- A run has met a full store. -/
def OutOfRoom (r : EStateM.Result Trap Machine Value) : Prop :=
  ∃ pc segment capacity m, r = .error ⟨pc, .exhausted segment capacity⟩ m

theorem sameRun_resized (caps : Capacities) (r : EStateM.Result Trap Machine Value) :
    SameRun r (resized caps r) := by
  cases r <;> exact ⟨rfl, rfl, rfl, rfl, rfl, rfl, rfl⟩

theorem outOfRoom_of_fault {trap : Trap} {segment : Segment} {capacity : Nat}
    (fault : trap.fault = .exhausted segment capacity) : OutOfRoom (.error trap m) :=
  ⟨trap.pc, segment, capacity, m, by rw [← fault]⟩

theorem named_fresh (caps : Capacities) : (fresh caps).Named := ⟨rfl, rfl⟩

/-- A machine that has used nothing yet fits anywhere. -/
theorem fits_fresh (caps caps' : Capacities) (segment : Segment) :
    (fresh caps).stats.Fits caps' segment := by
  cases segment with
  | code => trivial
  | stack => exact .inl rfl
  | dump => exact .inl rfl
  | heap => exact Nat.zero_le _

/-- A run that ends in anything but a full store happens in the same way under other capacities if
and only if what it used fits; otherwise a store is full that is too small for it. -/
theorem sameRun_iff_fits {words : Array Word} {caps caps' : Capacities} {code code' : Code}
    {m m' : Machine} (loaded : load? words caps = .ok (code, m))
    (loaded' : load? words caps' = .ok (code', m')) (room : ¬ OutOfRoom (run code m)) :
    (SameRun (run code m) (run code' m') ↔
      ∀ segment, (left (run code m)).stats.Fits caps' segment) ∧
    ((¬ ∀ segment, (left (run code m)).stats.Fits caps' segment) →
      ∃ pc segment m'', run code' m' = .error ⟨pc, .exhausted segment (caps'.get segment)⟩ m'' ∧
        ¬ (left (run code m)).stats.Fits caps' segment) := by
  obtain ⟨rfl, rfl⟩ := load?_eq_ok loaded
  obtain ⟨rfl, rfl⟩ := load?_eq_ok loaded'
  have scaled : Scaled Trap.fault caps' (fresh caps) (run ⟨caps.code, words⟩ (fresh caps))
      (run ⟨caps'.code, words⟩ ((fresh caps).resize caps')) := (named_fresh caps).scaled_run rfl
  have start : (fresh caps).resize caps' = fresh caps' := rfl
  rw [start] at scaled
  generalize run ⟨caps.code, words⟩ (fresh caps) = r at scaled room ⊢
  generalize run ⟨caps'.code, words⟩ (fresh caps') = r' at scaled ⊢
  cases scaled with
  | same later fits =>
    have all : ∀ segment, (left r).stats.Fits caps' segment :=
      fun segment => fits segment (fits_fresh caps caps' segment)
    exact ⟨⟨fun _ => all, fun _ => sameRun_resized caps' r⟩, fun lacks => absurd all lacks⟩
  | @tight _ segment trap m'' later lacks fault =>
    refine ⟨⟨fun same => ?_, fun all => absurd (all segment) lacks⟩, fun _ => ?_⟩
    · cases r with
      | ok value m => exact same.elim
      | error trap' m =>
        obtain ⟨rfl, -⟩ := same
        exact absurd (outOfRoom_of_fault fault) room
    · exact ⟨trap.pc, segment, m'', by rw [← fault], lacks⟩
  | full fault => exact absurd (outOfRoom_of_fault fault) room

/-- SEL leaves its frame and then finds no code at its target. With room for no frame at all, the
run stops at the dump instead. -/
theorem sameRun_of_frame_before_fault :
    ∃ code m code' m', load? #[1, 0, 6, 99, 99] {} = .ok (code, m) ∧
      load? #[1, 0, 6, 99, 99] { dump := 1 } = .ok (code', m') ∧ ¬ OutOfRoom (run code m) ∧
      (left (run code m)).stats = ⟨2, 1, 1, 0⟩ ∧ ¬ SameRun (run code m) (run code' m') ∧
      ∃ pc t, run code' m' = .error ⟨pc, .exhausted .dump 1⟩ t := by
  have loaded : load? #[1, 0, 6, 99, 99] {} = .ok (⟨65536, #[1, 0, 6, 99, 99]⟩, fresh {}) := rfl
  have loaded' : load? #[1, 0, 6, 99, 99] { dump := 1 } =
    .ok (⟨65536, #[1, 0, 6, 99, 99]⟩, fresh { dump := 1 }) := rfl
  have ran : run ⟨65536, #[1, 0, 6, 99, 99]⟩ (fresh {}) = .error ⟨2, .outOfCode 99 5⟩
      ⟨5, none, ⟨.stack, 65536, #[], 1⟩, ⟨.dump, 65536, #[.branch 5], 1⟩, ⟨1048576, #[]⟩, 2⟩ := by
    rw [run_eq]
    change run _ _ = _
    rw [run_eq]
    rfl
  have room : ¬ OutOfRoom (run ⟨65536, #[1, 0, 6, 99, 99]⟩ (fresh {})) := by
    rw [ran]
    rintro ⟨_, _, _, _, ⟨⟩⟩
  have lacks : ¬ Stats.Fits ⟨2, 1, 1, 0⟩ { dump := 1 } .dump := by simp [Stats.Fits]
  obtain ⟨same, stops⟩ := sameRun_iff_fits loaded loaded' room
  rw [ran] at same stops
  refine ⟨_, _, _, _, loaded, loaded', room, by rw [ran]; rfl, ?_, ?_⟩
  · rw [ran]
    exact fun alike => lacks (same.1 alike .dump)
  · obtain ⟨pc, segment, t, stopped, unfit⟩ := stops fun all => lacks (all .dump)
    cases segment with
    | code => exact absurd trivial unfit
    | stack => exact absurd (.inr (by decide)) unfit
    | dump => exact ⟨pc, t, stopped⟩
    | heap => exact absurd (Nat.zero_le _) unfit

end Machine

end Secd
