import Mathlib.Data.List.Forall2
import Secd.Proofs.Ideal
import Secd.Proofs.Steps

/-!
The heap is an implementation of lists. A machine with a heap and a machine without one, started on
the same code with stacks of the same capacities, go through corresponding states: the same address,
the same number of steps, stacks and dumps of the same height whose items stand for each other, and
an environment register that stands for the list. They also end alike, with a value that stands for
the other or with the same fault at the same address, and they do so after a failed instruction too.
The one fault that only the first machine knows is that its heap is full.

      machine   m ── part ─▶ m₁ ── part ─▶ m₂      cells are appended on the way
                │            │             │
      ideal     i ── part ─▶ i₁ ── part ─▶ i₂      the parts that allocate are missing here
-/

namespace Secd

open Effect

/-! ### Stacks with corresponding items -/

namespace Stack

variable {α β : Type} {R : α → β → Prop} {s : Stack α} {t : Stack β} {excused : Fault → Prop}

/-- Two stacks are alike but for their items, which are related one by one. -/
structure Alike (R : α → β → Prop) (s : Stack α) (t : Stack β) : Prop where
  segment : t.segment = s.segment
  capacity : t.capacity = s.capacity
  peak : t.peak = s.peak
  items : List.Forall₂ R s.items.toList t.items.toList

theorem Alike.height (alike : s.Alike R t) : t.height = s.height := by
  simpa [Stack.height] using alike.items.length_eq.symm

theorem forall₂_push {xs : Array α} {ys : Array β} {a : α} {b : β} :
    List.Forall₂ R (xs.push a).toList (ys.push b).toList ↔
      R a b ∧ List.Forall₂ R xs.toList ys.toList := by
  rw [← List.forall₂_reverse_iff, Array.toList_push, Array.toList_push, List.reverse_append,
    List.reverse_append, List.reverse_singleton, List.reverse_singleton, List.singleton_append,
    List.singleton_append, List.forall₂_cons, List.forall₂_reverse_iff]

/-- The same items are related in a wider sense. -/
theorem Alike.imp {R' : α → β → Prop} (alike : s.Alike R t) (wider : ∀ a b, R a b → R' a b) :
    s.Alike R' t :=
  { alike with items := alike.items.imp wider }

theorem Alike.push {a : α} {b : β} (alike : s.Alike R t) (related : R a b) :
    Matching excused (fun _ s' _ t' => s'.Alike R t') (Alike R) (Stack.push a s)
      (Stack.push b t) := by
  by_cases room : s.height + 1 < s.capacity
  · rw [push_of_room room, push_of_room (by rwa [alike.height, alike.capacity])]
    refine .ok ⟨alike.segment, alike.capacity, ?_, forall₂_push.2 ⟨related, alike.items⟩⟩
    rw [pushed, pushed, alike.height, alike.peak]
  · rw [push_of_full room, push_of_full (by rwa [alike.height, alike.capacity]), alike.segment,
      alike.capacity]
    exact .error alike

theorem Alike.pop (alike : s.Alike R t) :
    Matching excused (fun a s' b t' => s'.Alike R t' ∧ R a b) (Alike R) (Stack.pop s)
      (Stack.pop t) := by
  have items := alike.items
  by_cases empty : s.items = #[]
  · have empty' : t.items = #[] := by simpa [empty] using items
    rw [pop_of_empty empty, pop_of_empty empty', alike.segment]
    exact .error alike
  · have nonempty : t.items ≠ #[] := fun h => empty (by simpa [h] using items)
    obtain ⟨xs, a, hs⟩ := Array.exists_push_of_ne_empty empty
    obtain ⟨ys, b, ht⟩ := Array.exists_push_of_ne_empty nonempty
    rw [hs, ht, forall₂_push] at items
    rw [pop_of_push hs, pop_of_push ht]
    exact .ok ⟨⟨alike.segment, alike.capacity, alike.peak, items.2⟩, items.1⟩

end Stack

namespace Ideal

open Heap (Denotes DenotesEnv OutOfHeap)

/-! ### Corresponding machines -/

/-- A frame stands for a frame that saves what its environment stands for. -/
inductive DenotesFrame (h : Heap) : Secd.Frame → Frame → Prop where
  | branch (resume : Nat) : DenotesFrame h (.branch resume) (.branch resume)
  | call {env : Env} {list : List (Datum Nat)} (resume : Nat) (saved : DenotesEnv Eq h env list) :
      DenotesFrame h (.call resume env) (.call resume list)

/-- A machine over the heap `h` corresponds to one without a heap. -/
structure Corresponds (h : Heap) (m : Machine) (i : Ideal) : Prop where
  heap : m.heap = h
  pc : i.pc = m.pc
  steps : i.steps = m.steps
  env : DenotesEnv Eq h m.env i.env
  stack : m.stack.Alike (Denotes Eq h) i.stack
  dump : m.dump.Alike (DenotesFrame h) i.dump

/-- A machine corresponds to one without a heap, over the heap that it has. -/
def Related (m : Machine) (i : Ideal) : Prop := Corresponds m.heap m i

variable {h : Heap} {m : Machine} {i : Ideal} {code : Code} {α β : Type}

theorem Corresponds.related (c : Corresponds h m i) : Related m i := by
  obtain rfl := c.heap
  exact c

theorem DenotesFrame.append {frame : Secd.Frame} {frame' : Frame}
    (denotes : DenotesFrame h frame frame') (cells : Array Cell) :
    DenotesFrame (h.append cells) frame frame' := by
  cases denotes with
  | branch resume => exact .branch resume
  | call resume saved => exact .call resume (saved.append cells)

/-- Appended cells leave a machine corresponding. -/
theorem Corresponds.append (c : Corresponds h m i) (cells : Array Cell) :
    Corresponds (h.append cells) { m with heap := m.heap.append cells } i where
  heap := by rw [c.heap]
  pc := c.pc
  steps := c.steps
  env := c.env.append cells
  stack := c.stack.imp fun _ _ denotes => denotes.append cells
  dump := c.dump.imp fun _ _ denotes => denotes.append cells

/-! ### The parts of an instruction -/

theorem Corresponds.onStack {P : α → β → Prop} {a : Effect (Stack Value) α}
    {b : Effect (Stack (Datum Nat)) β} (c : Corresponds h m i)
    (sub : Matching OutOfHeap (fun x s y t => s.Alike (Denotes Eq h) t ∧ P x y)
      (Stack.Alike (Denotes Eq h)) (a m.stack) (b i.stack)) :
    Matching OutOfHeap (fun x m' y i' => Corresponds h m' i' ∧ P x y) Related
      (Machine.onStack a m) (Ideal.onStack b i) := by
  rw [Machine.onStack_eq, Ideal.onStack]
  generalize a m.stack = r at sub
  generalize b i.stack = r' at sub
  cases sub with
  | ok good => exact .ok ⟨{ c with stack := good.1 }, good.2⟩
  | error bad => exact .error (Corresponds.related { c with stack := bad })
  | excused excuse => exact .excused excuse

theorem Corresponds.onDump {P : α → β → Prop} {a : Effect (Stack Secd.Frame) α}
    {b : Effect (Stack Frame) β} (c : Corresponds h m i)
    (sub : Matching OutOfHeap (fun x s y t => s.Alike (DenotesFrame h) t ∧ P x y)
      (Stack.Alike (DenotesFrame h)) (a m.dump) (b i.dump)) :
    Matching OutOfHeap (fun x m' y i' => Corresponds h m' i' ∧ P x y) Related
      (Machine.onDump a m) (Ideal.onDump b i) := by
  rw [Machine.onDump_eq, Ideal.onDump]
  generalize a m.dump = r at sub
  generalize b i.dump = r' at sub
  cases sub with
  | ok good => exact .ok ⟨{ c with dump := good.1 }, good.2⟩
  | error bad => exact .error (Corresponds.related { c with dump := bad })
  | excused excuse => exact .excused excuse

theorem Corresponds.push {value : Value} {datum : Datum Nat} (c : Corresponds h m i)
    (denotes : Denotes Eq h value datum) :
    Matching OutOfHeap (fun _ m' _ i' => Corresponds h m' i' ∧ True) Related
      (Machine.onStack (Stack.push value) m) (Ideal.onStack (Stack.push datum) i) :=
  c.onStack ((c.stack.push denotes).imp fun _ _ _ _ alike => ⟨alike, trivial⟩)

theorem Corresponds.pop (c : Corresponds h m i) :
    Matching OutOfHeap (fun value m' datum i' => Corresponds h m' i' ∧ Denotes Eq h value datum)
      Related (Machine.onStack Stack.pop m) (Ideal.onStack Stack.pop i) :=
  c.onStack c.stack.pop

theorem Corresponds.popInt (c : Corresponds h m i) :
    Matching OutOfHeap (fun n m' n' i' => Corresponds h m' i' ∧ n = n') Related
      (Machine.onStack Stack.popInt m) (Ideal.onStack Ideal.popInt i) := by
  refine c.onStack (c.stack.pop.bind fun value s datum t ⟨alike, denotes⟩ => ?_)
  cases denotes with
  | int n => exact .ok ⟨alike, rfl⟩
  | plain => exact .error alike
  | recursive => exact .error alike

/-- The closure that one machine pops as a cell, the other pops as code and list. -/
theorem Corresponds.popClosure (c : Corresponds h m i) :
    Matching OutOfHeap
      (fun cell m' closure i' => Corresponds h m' i' ∧
        ∃ env, h.closure cell = .ok ⟨closure.1, env⟩ ∧ DenotesEnv Eq h env closure.2)
      Related (Machine.onStack Stack.popClosure m) (Ideal.onStack Ideal.popClosure i) := by
  refine c.onStack (c.stack.pop.bind fun value s datum t ⟨alike, denotes⟩ => ?_)
  cases applied : datum.applied? with
  | none =>
    obtain ⟨n, rfl⟩ := denotes.of_applied?_eq_none applied
    exact .error alike
  | some closure =>
    obtain ⟨cell, _, env, rfl, held, rfl, denotesEnv⟩ := denotes.of_applied?_eq_some applied
    exact .ok ⟨alike, env, held, denotesEnv⟩

theorem Corresponds.pushFrame {frame : Secd.Frame} {frame' : Frame} (c : Corresponds h m i)
    (denotes : DenotesFrame h frame frame') :
    Matching OutOfHeap (fun _ m' _ i' => Corresponds h m' i' ∧ True) Related
      (Machine.onDump (Stack.push frame) m) (Ideal.onDump (Stack.push frame') i) :=
  c.onDump ((c.dump.push denotes).imp fun _ _ _ _ alike => ⟨alike, trivial⟩)

theorem Corresponds.popBranch (c : Corresponds h m i) :
    Matching OutOfHeap (fun resume m' resume' i' => Corresponds h m' i' ∧ resume = resume') Related
      (Machine.onDump Stack.popBranch m) (Ideal.onDump Ideal.popBranch i) := by
  refine c.onDump (c.dump.pop.bind fun frame s frame' t ⟨alike, denotes⟩ => ?_)
  cases denotes with
  | branch resume => exact .ok ⟨alike, rfl⟩
  | call resume saved => exact .error alike

theorem Corresponds.popCall (c : Corresponds h m i) :
    Matching OutOfHeap
      (fun frame m' frame' i' => Corresponds h m' i' ∧ frame.1 = frame'.1 ∧
        DenotesEnv Eq h frame.2 frame'.2)
      Related (Machine.onDump Stack.popCall m) (Ideal.onDump Ideal.popCall i) := by
  refine c.onDump (c.dump.pop.bind fun frame s frame' t ⟨alike, denotes⟩ => ?_)
  cases denotes with
  | branch resume => exact .error alike
  | call resume saved => exact .ok ⟨alike, rfl, saved⟩

theorem Corresponds.fetch (c : Corresponds h m i) :
    Matching OutOfHeap (fun word m' word' i' => Corresponds h m' i' ∧ word = word') Related
      (Machine.fetch code m) (Ideal.fetch code i) := by
  refine .bind_get ?_
  rw [c.pc]
  cases code.fetch? m.pc with
  | none => exact .error c.related
  | some word => exact .ok ⟨{ c with pc := rfl }, rfl⟩

theorem Corresponds.decode (c : Corresponds h m i) :
    Matching OutOfHeap (fun op m' op' i' => Corresponds h m' i' ∧ op = op') Related
      (Machine.decode code m) (Ideal.decode code i) := by
  refine c.fetch.bind fun word m₁ word' i₁ ⟨c₁, same⟩ => ?_
  subst same
  cases Opcode.ofWord? word with
  | none => exact .error c₁.related
  | some op => exact .ok ⟨{ c₁ with steps := congrArg (· + 1) c₁.steps }, rfl⟩

/-! ### The instructions -/

/-- Both machines have done their work and correspond. -/
def Done (_ : Unit) (m : Machine) (_ : Unit) (i : Ideal) : Prop := Related m i

theorem Corresponds.arith (c : Corresponds h m i) (combine : Word → Word → Word) :
    Matching OutOfHeap Done Related (Machine.arith combine m) (Ideal.arith combine i) := by
  refine c.popInt.bind fun y m₁ y' i₁ ⟨c₁, hy⟩ => ?_
  refine c₁.popInt.bind fun x m₂ x' i₂ ⟨c₂, hx⟩ => ?_
  subst hx hy
  exact (c₂.push (.int _)).imp fun _ _ _ _ ⟨c₃, _⟩ => c₃.related

theorem Corresponds.loadBinding (c : Corresponds h m i) :
    Matching OutOfHeap Done Related (Machine.loadBinding code m) (Ideal.loadBinding code i) := by
  refine c.fetch.bind fun operand m₁ operand' i₁ ⟨c₁, same⟩ => ?_
  subst same
  cases operand.toIndex? with
  | none => exact .error c₁.related
  | some index =>
    refine .bind_get ?_
    rcases c₁.env.lookup index with ⟨value, datum, found, found', denotes⟩ | ⟨missing, missing'⟩
    · simp only [c₁.heap, found, found']
      exact (c₁.push denotes).imp fun _ _ _ _ ⟨c₂, _⟩ => c₂.related
    · simp only [c₁.heap, missing, missing']
      exact .error c₁.related

theorem Corresponds.select (c : Corresponds h m i) :
    Matching OutOfHeap Done Related (Machine.select code m) (Ideal.select code i) := by
  refine c.popInt.bind fun condition m₁ condition' i₁ ⟨c₁, same₁⟩ => ?_
  refine c₁.fetch.bind fun onZero m₂ onZero' i₂ ⟨c₂, same₂⟩ => ?_
  refine c₂.fetch.bind fun onNonzero m₃ onNonzero' i₃ ⟨c₃, same₃⟩ => ?_
  subst same₁ same₂ same₃
  refine .bind_get ?_
  rw [c₃.pc]
  refine (c₃.pushFrame (.branch m₃.pc)).bind fun _ m₄ _ i₄ ⟨c₄, _⟩ => ?_
  refine (Matching.check _ c₄.related).bind fun target m₅ target' i₅ ⟨same, hm, hi⟩ => ?_
  subst same hm hi
  exact .ok (Corresponds.related { c₄ with pc := rfl })

theorem Corresponds.loadClosure {capture : Nat → Env → Effect Heap CellId}
    {make : Nat → List (Datum Nat) → Datum Nat} (c : Corresponds h m i)
    (makes : Heap.Makes Eq capture make) :
    Matching OutOfHeap Done Related (Machine.loadClosure code capture m)
      (Ideal.loadClosure code make i) := by
  refine c.fetch.bind fun operand m₁ operand' i₁ ⟨c₁, same⟩ => ?_
  subst same
  refine (Matching.check _ c₁.related).bind fun entry m₂ entry' i₂ ⟨same, hm, hi⟩ => ?_
  subst same hm hi
  refine .bind_get (.bind_left ?_)
  rw [Machine.ends_onHeap, c₁.heap]
  refine (makes rfl c₁.env).imp ?_ fun _ _ full => full
  rintro cell _ ⟨cells, rfl, denotes⟩
  have c₂ := c₁.append cells
  rw [c₁.heap] at c₂
  exact (c₂.push denotes).imp fun _ _ _ _ ⟨c₃, _⟩ => c₃.related

theorem Corresponds.apply (c : Corresponds h m i) :
    Matching OutOfHeap Done Related (Machine.apply m) (Ideal.apply i) := by
  refine c.pop.bind fun argument m₁ argument' i₁ ⟨c₁, denotes⟩ => ?_
  refine c₁.popClosure.bind fun cell m₂ closure i₂ ⟨c₂, env, held, denotesEnv⟩ => ?_
  refine .bind_get ?_
  simp only [c₂.heap, held]
  have denotesFrame : DenotesFrame h (.call m₂.pc m₂.env) (.call i₂.pc i₂.env) := by
    rw [c₂.pc]
    exact .call m₂.pc c₂.env
  refine (c₂.pushFrame denotesFrame).bind fun _ m₃ _ i₃ ⟨c₃, _⟩ => .bind_left ?_
  rw [Machine.ends_onHeap, c₃.heap, Heap.ends_extend]
  refine ⟨fun _ => ?_, fun _ => ⟨_, rfl⟩⟩
  have c₄ := c₃.append #[.binding argument env]
  rw [c₃.heap] at c₄
  exact .ok (Corresponds.related { c₄ with pc := rfl, env := .extend denotes denotesEnv })

theorem Corresponds.ret (c : Corresponds h m i) :
    Matching OutOfHeap Done Related (Machine.ret m) (Ideal.ret i) := by
  refine c.popCall.bind fun frame m₁ frame' i₁ ⟨c₁, resume, denotes⟩ => ?_
  exact .ok (Corresponds.related { c₁ with pc := resume.symm, env := denotes })

/-- A step of each machine is done, and both have the same kind of result. -/
def Stepped (value : Option Value) (m : Machine) (datum : Option (Datum Nat)) (i : Ideal) : Prop :=
  Related m i ∧ Option.Rel (Denotes Eq m.heap) value datum

theorem Done.goOn {u v : Unit} (done : Done u m v i) : Stepped none m none i := ⟨done, .none⟩

theorem Corresponds.exec (c : Corresponds h m i) (op : Opcode) :
    Matching OutOfHeap Stepped Related (Machine.exec code op m) (Ideal.exec code op i) := by
  cases op with
  | halt =>
    refine c.pop.bind fun value m₁ datum i₁ ⟨c₁, denotes⟩ => .ok ⟨c₁.related, ?_⟩
    rw [c₁.heap]
    exact .some denotes
  | ldc =>
    refine c.fetch.bind fun word m₁ word' i₁ ⟨c₁, same⟩ => ?_
    subst same
    exact (c₁.push (.int word)).bind fun _ _ _ _ ⟨c₂, _⟩ => .ok ⟨c₂.related, .none⟩
  | ld => exact c.loadBinding.bind fun _ _ _ _ done => .ok done.goOn
  | add | sub | mul => exact (c.arith _).bind fun _ _ _ _ done => .ok done.goOn
  | sel => exact c.select.bind fun _ _ _ _ done => .ok done.goOn
  | ldf => exact (c.loadClosure Heap.makes_capture).bind fun _ _ _ _ done => .ok done.goOn
  | ldrf => exact (c.loadClosure Heap.makes_captureRec).bind fun _ _ _ _ done => .ok done.goOn
  | ap => exact c.apply.bind fun _ _ _ _ done => .ok done.goOn
  | rtn => exact c.ret.bind fun _ _ _ _ done => .ok done.goOn
  | join =>
    refine c.popBranch.bind fun resume m₁ resume' i₁ ⟨c₁, same⟩ => ?_
    exact .ok ⟨Corresponds.related { c₁ with pc := same.symm }, .none⟩

/-! ### Steps and runs -/

/-- Corresponding machines take corresponding steps. -/
theorem Related.step (related : Related m i) :
    Matching (fun trap => OutOfHeap trap.fault) Stepped Related (Machine.step code m)
      (Ideal.step code i) := by
  have instruction : Matching OutOfHeap Stepped Related
      ((Machine.decode code >>= Machine.exec code) m) ((Ideal.decode code >>= Ideal.exec code) i) :=
    (Corresponds.decode related).bind fun op _ op' _ ⟨c, same⟩ => same ▸ c.exec op
  unfold Ideal.step
  rw [Machine.step_eq, Corresponds.pc related]
  generalize (Machine.decode code >>= Machine.exec code) m = r at instruction
  generalize (Ideal.decode code >>= Ideal.exec code) i = r' at instruction
  cases instruction with
  | ok good => exact .ok good
  | error bad => exact .error bad
  | excused excuse => exact .excused excuse

theorem Related.advance (related : Related m i) (k : Nat) :
    Matching (fun trap => OutOfHeap trap.fault) Stepped Related (Machine.advance code k m)
      (Ideal.advance code k i) := by
  induction k generalizing m i with
  | zero => exact .ok ⟨related, .none⟩
  | succ k ih =>
    refine related.step.bind fun value m₁ datum i₁ ⟨related₁, denotes⟩ => ?_
    cases denotes with
    | none => exact ih related₁
    | some denotes => exact .ok ⟨related₁, .some denotes⟩

theorem related_fresh (caps : Capacities) : Related (Machine.fresh caps) (fresh caps) where
  heap := rfl
  pc := rfl
  steps := rfl
  env := .nil
  stack := ⟨rfl, rfl, rfl, .nil⟩
  dump := ⟨rfl, rfl, rfl, .nil⟩

/-- A loaded machine and the one without a heap do the same for any number of steps, up to HALT or a
trap, unless the heap gets full on the way. -/
theorem advance_matches {words : Array Word} {caps : Capacities}
    (loaded : Machine.load? words caps = .ok (code, m)) (k : Nat) :
    Matching (fun trap => OutOfHeap trap.fault) Stepped Related (Machine.advance code k m)
      (Ideal.advance code k (fresh caps)) := by
  obtain ⟨-, rfl⟩ := Machine.load?_eq_ok loaded
  exact (related_fresh caps).advance k

/-- A recursive closure is made, applied, found by itself and given as the result. -/
theorem advance_matches_of_recursion :
    ∃ code m, Machine.load? #[8, 6, 1, 7, 9, 0, 2, 1, 10] {} = .ok (code, m) ∧
      Ends (fun result _ => result = some (.closure 1)) (fun _ _ => False)
        (Machine.advance code 9 m) ∧
      Matching (fun trap => OutOfHeap trap.fault) Stepped Related (Machine.advance code 9 m)
        (Ideal.advance code 9 (fresh {})) := by
  have loaded : Machine.load? #[8, 6, 1, 7, 9, 0, 2, 1, 10] {} =
    .ok (⟨65536, #[8, 6, 1, 7, 9, 0, 2, 1, 10]⟩, Machine.fresh {}) := rfl
  exact ⟨_, _, loaded, by decide +kernel, advance_matches loaded 9⟩

end Ideal

end Secd
