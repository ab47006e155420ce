import Secd.Proofs.Control
import Secd.Proofs.Expression
import Secd.Proofs.Steps

/-!
The machine evaluates expressions. Where the code of an expression starts, in an environment that
stands for a list, stepping comes to where the code ends, with the value of the expression on top of
the stack and with stack, dump and environment otherwise as they were; or a store gets full.

Only the addresses, the items and the cells matter for this, so machines are compared by their view,
which leaves the counters out. Sequences of steps are joined at the views between them:

      f a AP     view ── f ─▶ f's value ── a ─▶ a's value ── AP ─▶ body ── RTN ─▶ the call's value
-/

namespace Secd.Machine

open Effect
open Heap (Denotes DenotesEnv)

/-- What a machine holds, without its counters. -/
structure View where
  pc : Nat
  env : Env
  stack : Array Value
  dump : Array Frame
  heap : Heap

/-- The view of a machine. -/
def view (m : Machine) : View := ⟨m.pc, m.env, m.stack.items, m.dump.items, m.heap⟩

theorem view_eq_iff {m : Machine} {pc : Nat} {env : Env} {stack : Array Value}
    {dump : Array Frame} {heap : Heap} :
    m.view = ⟨pc, env, stack, dump, heap⟩ ↔
      m.pc = pc ∧ m.env = env ∧ m.stack.items = stack ∧ m.dump.items = dump ∧ m.heap = heap := by
  simp only [view, View.mk.injEq]

/-- Stepping comes to a machine with `Q`, or traps because a store is full. -/
def Reaches (code : Code) (m : Machine) (Q : Machine → Prop) : Prop :=
  ∃ k, Ends (fun result m' => result = none ∧ Q m') (fun trap _ => trap.fault.kind = .exhaustion)
    (advance code k m)

/-- A machine has come from `m` to an address and has put a value for `value` on the items `rest`;
nothing else has changed, but that cells were appended. -/
def Yields (code : Code) (m : Machine) (stop : Nat) (rest : Array Value) (value : Datum Expr)
    (m' : Machine) : Prop :=
  ∃ v cells,
    m'.view = ⟨stop, m.env, rest.push v, m.dump.items, m.heap.append cells⟩ ∧
      Denotes code.Enters (m.heap.append cells) v value

variable {code : Code} {m : Machine} {P Q : Machine → Prop}

/-! ### Instructions up to what may find a store full -/

theorem exec_opcode (code : Code) (operator : Operator) :
    exec code operator.opcode = (do arith operator.combine; return none) := by
  cases operator <;> rfl

theorem arith_eq {combine : Word → Word → Word} {x y : Word} {rest : Array Value}
    (items : m.stack.items = (rest.push (.int x)).push (.int y)) :
    arith combine m.decoded = onStack (Stack.push (.int (combine x y)))
      { m with pc := m.pc + 1, stack := m.stack.withItems rest, steps := m.steps + 1 } := by
  have items : m.decoded.stack.items = _ := items
  rw [arith]
  refine (bind_of_ok (onStack_of_ok (Stack.popInt_of_push items))).trans ?_
  exact bind_of_ok (onStack_of_ok (Stack.popInt_of_push rfl))

theorem loadBinding_eq {index : Nat} {value : Value} (operand : code.HasIndex (m.pc + 1) index)
    (found : m.heap.lookup index m.env = .ok value) :
    loadBinding code m.decoded =
      onStack (Stack.push value) { m with pc := m.pc + 2, steps := m.steps + 1 } := by
  obtain ⟨word, operand, isIndex⟩ := operand
  rw [loadBinding]
  refine (bind_of_ok (fetch_of_some operand)).trans ?_
  rw [isIndex]
  exact (bind_of_ok rfl).trans (bind_of_ok (check_of_ok found _))

theorem select_eq {onZero onNonzero target : Nat} {n : Word} {rest : Array Value}
    (zero : code.HasIndex (m.pc + 1) onZero) (nonzero : code.HasIndex (m.pc + 2) onNonzero)
    (items : m.stack.items = rest.push (.int n))
    (chosen : target = if n = 0 then onZero else onNonzero) (inside : target < code.size) :
    select code m.decoded = (do onDump (Stack.push (.branch (m.pc + 3))); jump target)
      { m with pc := m.pc + 3, stack := m.stack.withItems rest, steps := m.steps + 1 } := by
  obtain ⟨zeroWord, hzero, zeroIndex⟩ := zero
  obtain ⟨nonzeroWord, hnonzero, nonzeroIndex⟩ := nonzero
  have address : code.address (if n = 0 then zeroWord else nonzeroWord) = .ok target := by
    subst chosen
    split at inside <;> simp_all [Code.address]
  have items : m.decoded.stack.items = _ := items
  rw [select]
  refine (bind_of_ok (onStack_of_ok (Stack.popInt_of_push items))).trans ?_
  refine (bind_of_ok (fetch_of_some hzero)).trans ((bind_of_ok (fetch_of_some hnonzero)).trans ?_)
  rw [address]
  rfl

theorem loadClosure_eq {capture : Nat → Env → Effect Heap CellId} {entry : Nat} {body : Expr}
    (operand : code.HasIndex (m.pc + 1) entry) (enters : code.Enters entry body) :
    loadClosure code capture m.decoded =
      (do onStack (Stack.push (.closure (← onHeap (capture entry m.env)))))
        { m with pc := m.pc + 2, steps := m.steps + 1 } := by
  obtain ⟨word, operand, isIndex⟩ := operand
  obtain ⟨stop, holds, -⟩ := enters
  have address : code.address word = .ok entry := Code.address_of_holds isIndex holds
  rw [loadClosure]
  refine (bind_of_ok (fetch_of_some operand)).trans ?_
  exact bind_of_ok (check_of_ok address _)

theorem apply_eq {cell : CellId} {argument : Value} {entry : Nat} {env : Env}
    {rest : Array Value} (items : m.stack.items = (rest.push (.closure cell)).push argument)
    (held : m.heap.closure cell = .ok ⟨entry, env⟩) :
    apply m.decoded =
      (do onDump (Stack.push (.call (m.pc + 1) m.env))
          enter (← onHeap (Heap.extend argument env))
          jump entry)
        { m with pc := m.pc + 1, stack := m.stack.withItems rest, steps := m.steps + 1 } := by
  have items : m.decoded.stack.items = _ := items
  rw [apply]
  refine (bind_of_ok (onStack_of_ok (Stack.pop_of_push items))).trans ?_
  refine (bind_of_ok (onStack_of_ok (Stack.popClosure_of_push rfl))).trans ?_
  exact (bind_of_ok rfl).trans (bind_of_ok (check_of_ok held _))

/-! ### Sequences of steps -/

theorem Reaches.trans (first : Reaches code m P) (second : ∀ m', P m' → Reaches code m' Q) :
    Reaches code m Q := by
  obtain ⟨j, hj⟩ := first
  cases h : advance code j m with
  | error trap m' =>
    rw [h] at hj
    exact ⟨j, by rw [h]; exact hj⟩
  | ok result m' =>
    rw [h] at hj
    obtain ⟨rfl, hP⟩ := hj
    obtain ⟨k, hk⟩ := second m' hP
    exact ⟨j + k, by rwa [advance_add h]⟩

theorem Reaches.refl (h : Q m) : Reaches code m Q := ⟨0, rfl, h⟩

theorem Reaches.imp (h : Reaches code m P) (implies : ∀ m', P m' → Q m') : Reaches code m Q :=
  h.trans fun m' hP => .refl (implies m' hP)

/-- One instruction, seen from the opcode on. -/
theorem reaches_of_exec {op : Opcode} (found : code.HasOp m.pc op)
    (ends : Ends (fun result m' => result = none ∧ Q m') (fun fault _ => fault.kind = .exhaustion)
      (exec code op m.decoded)) : Reaches code m Q := by
  have stepped : Ends (fun result m' => result = none ∧ Q m')
      (fun trap _ => trap.fault.kind = .exhaustion) (step code m) := ends_step_of_found found ends
  refine ⟨1, stepped.bind fun result m' h => ?_⟩
  obtain ⟨rfl, hQ⟩ := h
  exact ⟨rfl, hQ⟩

/-! ### The instructions by their views -/

theorem reaches_ldc {n : Word} (op : code.HasOp m.pc .ldc)
    (operand : code.fetch? (m.pc + 1) = some n) :
    Reaches code m fun m' =>
      m'.view = ⟨m.pc + 2, m.env, m.stack.items.push (.int n), m.dump.items, m.heap⟩ := by
  refine reaches_of_exec op ?_
  refine .bind_of_ok (fetch_of_some operand) ?_
  rw [ends_bind, ends_onStack, Stack.ends_push]
  exact ⟨fun _ => ⟨rfl, rfl⟩, fun _ => rfl⟩

theorem reaches_ld {index : Nat} {value : Value} (op : code.HasOp m.pc .ld)
    (operand : code.HasIndex (m.pc + 1) index) (found : m.heap.lookup index m.env = .ok value) :
    Reaches code m fun m' =>
      m'.view = ⟨m.pc + 2, m.env, m.stack.items.push value, m.dump.items, m.heap⟩ := by
  refine reaches_of_exec op ?_
  rw [exec, ends_bind, loadBinding_eq operand found, ends_onStack, Stack.ends_push]
  exact ⟨fun _ => ⟨rfl, rfl⟩, fun _ => rfl⟩

theorem reaches_arith {operator : Operator} {x y : Word} {rest : Array Value}
    (op : code.HasOp m.pc operator.opcode)
    (items : m.stack.items = (rest.push (.int x)).push (.int y)) :
    Reaches code m fun m' => m'.view =
      ⟨m.pc + 1, m.env, rest.push (.int (operator.combine x y)), m.dump.items, m.heap⟩ := by
  refine reaches_of_exec op ?_
  rw [exec_opcode, ends_bind, arith_eq items, ends_onStack, Stack.ends_push]
  exact ⟨fun _ => ⟨rfl, rfl⟩, fun _ => rfl⟩

theorem reaches_sel {onZero onNonzero target : Nat} {n : Word} {rest : Array Value}
    (op : code.HasOp m.pc .sel) (zero : code.HasIndex (m.pc + 1) onZero)
    (nonzero : code.HasIndex (m.pc + 2) onNonzero) (items : m.stack.items = rest.push (.int n))
    (chosen : target = if n = 0 then onZero else onNonzero) (inside : target < code.size) :
    Reaches code m fun m' =>
      m'.view = ⟨target, m.env, rest, m.dump.items.push (.branch (m.pc + 3)), m.heap⟩ := by
  refine reaches_of_exec op ?_
  rw [exec, ends_bind, select_eq zero nonzero items chosen inside, ends_bind, ends_onDump,
    Stack.ends_push]
  exact ⟨fun _ => ⟨rfl, rfl⟩, fun _ => rfl⟩

theorem reaches_join {resume : Nat} {rest : Array Frame} (op : code.HasOp m.pc .join)
    (items : m.dump.items = rest.push (.branch resume)) :
    Reaches code m fun m' => m'.view = ⟨resume, m.env, m.stack.items, rest, m.heap⟩ := by
  refine reaches_of_exec op ?_
  exact .bind_of_ok (onDump_of_ok (Stack.popBranch_of_push items)) ⟨rfl, rfl⟩

theorem reaches_closure {capture : Nat → Env → Effect Heap CellId}
    {make : Expr → List (Datum Expr) → Datum Expr} {op : Opcode} {entry : Nat} {body : Expr}
    {list : List (Datum Expr)} (found : code.HasOp m.pc op)
    (loads : exec code op = (do loadClosure code capture; return none))
    (makes : Heap.Makes code.Enters capture make) (operand : code.HasIndex (m.pc + 1) entry)
    (enters : code.Enters entry body) (denotes : DenotesEnv code.Enters m.heap m.env list) :
    Reaches code m (Yields code m (m.pc + 2) m.stack.items (make body list)) := by
  refine reaches_of_exec found ?_
  rw [loads, ends_bind, loadClosure_eq operand enters, ends_bind, ends_onHeap]
  refine (makes enters denotes).imp ?_ ?_
  · rintro cell _ ⟨cells, rfl, made⟩
    rw [ends_onStack, Stack.ends_push]
    exact ⟨fun _ => ⟨rfl, _, cells, rfl, made⟩, fun _ => rfl⟩
  · rintro _ _ ⟨capacity, rfl⟩
    rfl

theorem reaches_ap {cell : CellId} {argument : Value} {entry : Nat} {env : Env}
    {rest : Array Value} (op : code.HasOp m.pc .ap)
    (items : m.stack.items = (rest.push (.closure cell)).push argument)
    (held : m.heap.closure cell = .ok ⟨entry, env⟩) :
    Reaches code m fun m' => m'.view =
      ⟨entry, some m.heap.size, rest, m.dump.items.push (.call (m.pc + 1) m.env),
        m.heap.append #[.binding argument env]⟩ := by
  refine reaches_of_exec op ?_
  rw [exec, ends_bind, apply_eq items held, ends_bind, ends_onDump, Stack.ends_push]
  refine ⟨fun _ => ?_, fun _ => rfl⟩
  rw [ends_bind, ends_onHeap, Heap.ends_extend]
  exact ⟨fun _ => ⟨rfl, rfl⟩, fun _ => rfl⟩

theorem reaches_rtn {resume : Nat} {env : Env} {rest : Array Frame} (op : code.HasOp m.pc .rtn)
    (items : m.dump.items = rest.push (.call resume env)) :
    Reaches code m fun m' => m'.view = ⟨resume, env, m.stack.items, rest, m.heap⟩ := by
  refine reaches_of_exec op ?_
  rw [exec, ends_bind, ret]
  exact .bind_of_ok (onDump_of_ok (Stack.popCall_of_push items)) ⟨rfl, rfl⟩

/-! ### The parts of expressions -/

/-- Wherever the code of an expression lies, it gives the value in the environment. -/
def Computes (code : Code) (list : List (Datum Expr)) (e : Expr) (value : Datum Expr) : Prop :=
  ∀ ⦃start stop : Nat⦄ ⦃m : Machine⦄, code.Holds e start stop → m.pc = start →
    DenotesEnv code.Enters m.heap m.env list →
    Reaches code m (Yields code m stop m.stack.items value)

variable {list captured : List (Datum Expr)} {x y input value : Datum Expr}

theorem yields_of_view {m' : Machine} {stop : Nat} {rest : Array Value} {v : Value}
    (view : m'.view = ⟨stop, m.env, rest.push v, m.dump.items, m.heap⟩)
    (denotes : Denotes code.Enters m.heap v value) : Yields code m stop rest value m' := by
  refine ⟨v, #[], ?_, ?_⟩
  · rw [view, Heap.append_empty]
  · rw [Heap.append_empty]
    exact denotes

/-- What was yielded after some cells were appended was yielded from the start. -/
theorem Yields.after {m₁ m₂ : Machine} {pc stop : Nat} {items rest : Array Value}
    {cells : Array Cell} (view₁ : m₁.view = ⟨pc, m.env, items, m.dump.items, m.heap.append cells⟩)
    (yields : Yields code m₁ stop rest value m₂) : Yields code m stop rest value m₂ := by
  obtain ⟨v, cells₂, view₂, denotes⟩ := yields
  obtain ⟨-, env₁, -, dump₁, heap₁⟩ := view_eq_iff.1 view₁
  rw [heap₁, Heap.append_append] at denotes
  refine ⟨v, cells ++ cells₂, ?_, denotes⟩
  rw [view₂, env₁, dump₁, heap₁, Heap.append_append]

/-- Two expressions in a row leave both values. -/
theorem Computes.both {left right : Expr} {start middle stop : Nat}
    (first : Computes code list left x) (second : Computes code list right y)
    (holds₁ : code.Holds left start middle) (holds₂ : code.Holds right middle stop)
    (pc : m.pc = start) (env : DenotesEnv code.Enters m.heap m.env list) :
    Reaches code m fun m' => ∃ a b cells,
      m'.view = ⟨stop, m.env, (m.stack.items.push a).push b, m.dump.items,
        m.heap.append cells⟩ ∧
      Denotes code.Enters (m.heap.append cells) a x ∧
      Denotes code.Enters (m.heap.append cells) b y := by
  refine (first holds₁ pc env).trans fun m₁ ⟨a, cells₁, view₁, denotesA⟩ => ?_
  obtain ⟨pc₁, env₁, stack₁, dump₁, heap₁⟩ := view_eq_iff.1 view₁
  have denotesEnv₁ : DenotesEnv code.Enters m₁.heap m₁.env list := by
    rw [heap₁, env₁]
    exact env.append cells₁
  refine (second holds₂ pc₁ denotesEnv₁).imp ?_
  rintro m₂ ⟨b, cells₂, view₂, denotesB⟩
  rw [heap₁, Heap.append_append] at denotesB
  refine ⟨a, b, cells₁ ++ cells₂, ?_, ?_, denotesB⟩
  · rw [view₂, env₁, stack₁, dump₁, heap₁, Heap.append_append]
  · rw [← Heap.append_append]
    exact denotesA.append cells₂

theorem computes_literal (n : Word) : Computes code list (.literal n) (.int n) := by
  intro start stop m holds pc env
  cases holds with
  | literal op operand =>
    subst pc
    exact (reaches_ldc op operand).imp fun m' view => yields_of_view view (.int n)

theorem computes_var {index : Nat} (bound : list[index]? = some value) :
    Computes code list (.var index) value := by
  intro start stop m holds pc env
  cases holds with
  | var op operand =>
    subst pc
    rcases env.lookup index with ⟨v, datum, found, bound', denotes⟩ | ⟨-, unbound⟩
    · rw [bound] at bound'
      cases bound'
      exact (reaches_ld op operand found).imp fun m' view => yields_of_view view denotes
    · rw [bound] at unbound
      cases unbound

theorem Computes.arith {operator : Operator} {left right : Expr} {x y : Word}
    (first : Computes code list left (.int x)) (second : Computes code list right (.int y)) :
    Computes code list (.arith operator left right) (.int (operator.combine x y)) := by
  intro start _ m holds pc env
  cases holds with
  | @arith _ _ _ _ middle stop holds₁ holds₂ op =>
    refine (first.both second holds₁ holds₂ pc env).trans ?_
    rintro m₁ ⟨a, b, cells, view₁, denotesA, denotesB⟩
    cases denotesA
    cases denotesB
    obtain ⟨pc₁, -, items, -, -⟩ := view_eq_iff.1 view₁
    subst pc₁
    refine (reaches_arith op items).imp fun m₂ view₂ => ?_
    exact .after view₁ (yields_of_view view₂ (.int _))

/-- A chosen branch runs and comes back behind both targets. -/
theorem Computes.branch {e : Expr} {onZero onNonzero target stop : Nat} {n : Word}
    {rest : Array Value} (computes : Computes code list e value) (op : code.HasOp m.pc .sel)
    (zero : code.HasIndex (m.pc + 1) onZero) (nonzero : code.HasIndex (m.pc + 2) onNonzero)
    (items : m.stack.items = rest.push (.int n))
    (chosen : target = if n = 0 then onZero else onNonzero) (holds : code.Holds e target stop)
    (join : code.HasOp stop .join) (env : DenotesEnv code.Enters m.heap m.env list) :
    Reaches code m (Yields code m (m.pc + 3) rest value) := by
  refine (reaches_sel op zero nonzero items chosen holds.lt_size).trans fun m₁ view₁ => ?_
  obtain ⟨pc₁, env₁, stack₁, dump₁, heap₁⟩ := view_eq_iff.1 view₁
  have denotesEnv₁ : DenotesEnv code.Enters m₁.heap m₁.env list := by
    rw [heap₁, env₁]
    exact env
  refine (computes holds pc₁ denotesEnv₁).trans fun m₂ ⟨v, cells, view₂, result⟩ => ?_
  obtain ⟨pc₂, env₂, stack₂, dump₂, heap₂⟩ := view_eq_iff.1 view₂
  rw [heap₁] at result
  refine (reaches_join (pc₂ ▸ join) (dump₂.trans dump₁)).imp fun m₃ view₃ => ?_
  refine ⟨v, cells, ?_, result⟩
  rw [view₃, env₂, env₁, stack₂, stack₁, heap₂, heap₁]

theorem Computes.ifZero {condition onZero onNonzero : Expr} {n : Word}
    (test : Computes code list condition (.int n))
    (chosen : Computes code list (if n = 0 then onZero else onNonzero) value) :
    Computes code list (.ifZero condition onZero onNonzero) value := by
  intro start _ m holds pc env
  cases holds with
  | @ifZero _ _ _ _ middle t f stopT stopF holds op targetT targetF branchT joinT branchF joinF =>
    refine (test holds pc env).trans fun m₁ ⟨v, cells, view₁, denotes⟩ => ?_
    cases denotes
    obtain ⟨pc₁, env₁, items, -, heap₁⟩ := view_eq_iff.1 view₁
    have denotesEnv₁ : DenotesEnv code.Enters m₁.heap m₁.env list := by
      rw [heap₁, env₁]
      exact env.append cells
    subst pc₁
    by_cases zero : n = 0
    · rw [if_pos zero] at chosen
      refine (chosen.branch op targetT targetF items (if_pos zero).symm branchT joinT
        denotesEnv₁).imp ?_
      exact fun m₂ yields => .after view₁ yields
    · rw [if_neg zero] at chosen
      refine (chosen.branch op targetT targetF items (if_neg zero).symm branchF joinF
        denotesEnv₁).imp ?_
      exact fun m₂ yields => .after view₁ yields

/-- A body runs in what its closure captured, and gives the caller its environment back. -/
theorem Computes.call {body : Expr} {cell : CellId} {entry : Nat} {env : Env} {argument : Value}
    {rest : Array Value} (computes : Computes code (input :: captured) body value)
    (op : code.HasOp m.pc .ap) (items : m.stack.items = (rest.push (.closure cell)).push argument)
    (held : m.heap.closure cell = .ok ⟨entry, env⟩) (enters : code.Enters entry body)
    (denotesEnv : DenotesEnv code.Enters m.heap env captured)
    (denotes : Denotes code.Enters m.heap argument input) :
    Reaches code m (Yields code m (m.pc + 1) rest value) := by
  obtain ⟨stop, holds, rtn⟩ := enters
  refine (reaches_ap op items held).trans fun m₁ view₁ => ?_
  obtain ⟨pc₁, env₁, stack₁, dump₁, heap₁⟩ := view_eq_iff.1 view₁
  have denotesEnv₁ : DenotesEnv code.Enters m₁.heap m₁.env (input :: captured) := by
    rw [heap₁, env₁]
    exact .extend denotes denotesEnv
  refine (computes holds pc₁ denotesEnv₁).trans fun m₂ ⟨v, cells, view₂, result⟩ => ?_
  obtain ⟨pc₂, -, stack₂, dump₂, heap₂⟩ := view_eq_iff.1 view₂
  rw [heap₁, Heap.append_append] at result
  refine (reaches_rtn (pc₂ ▸ rtn) (dump₂.trans dump₁)).imp fun m₃ view₃ => ?_
  refine ⟨v, _, ?_, result⟩
  rw [view₃, stack₂, stack₁, heap₂, heap₁, Heap.append_append]

theorem Computes.app {function argument body : Expr} {closure : Datum Expr}
    (callee : Computes code list function closure)
    (applied : closure.applied? = some (body, captured))
    (operand : Computes code list argument input)
    (call : Computes code (input :: captured) body value) :
    Computes code list (.app function argument) value := by
  intro start _ m holds pc env
  cases holds with
  | @app _ _ _ middle stop holds₁ holds₂ op =>
    refine (callee.both operand holds₁ holds₂ pc env).trans ?_
    rintro m₁ ⟨a, b, cells, view₁, denotesA, denotesB⟩
    obtain ⟨pc₁, -, items, -, heap₁⟩ := view_eq_iff.1 view₁
    subst pc₁
    rw [← heap₁] at denotesA denotesB
    obtain ⟨cell, entry, saved, rfl, held, enters, denotesEnv⟩ :=
      denotesA.of_applied?_eq_some applied
    refine (call.call op items held enters denotesEnv denotesB).imp ?_
    exact fun m₂ yields => .after view₁ yields

theorem computes_lam (body : Expr) : Computes code list (.lam body) (.plain body list) := by
  intro start stop m holds pc env
  cases holds with
  | lam op target inner ret =>
    subst pc
    exact reaches_closure op rfl Heap.makes_capture target ⟨_, inner, ret⟩ env

theorem computes_lamRec (body : Expr) :
    Computes code list (.lamRec body) (.recursive body list) := by
  intro start stop m holds pc env
  cases holds with
  | lamRec op target inner ret =>
    subst pc
    exact reaches_closure op rfl Heap.makes_captureRec target ⟨_, inner, ret⟩ env

/-! ### Expressions -/

/-- The code of an expression that has a value puts it on the stack, or a store gets full. -/
theorem reaches_of_eval {e : Expr} {start stop : Nat} (holds : code.Holds e start stop)
    (pc : m.pc = start) (env : DenotesEnv code.Enters m.heap m.env list)
    (eval : Expr.Eval list e value) : Reaches code m (Yields code m stop m.stack.items value) := by
  -- the parts of an expression lie elsewhere and start from other machines
  suffices computes : Computes code list e value from computes holds pc env
  clear holds pc env
  induction eval with
  | literal n => exact computes_literal n
  | var bound => exact computes_var bound
  | arith _ _ first second => exact first.arith second
  | ifZero _ _ test branch => exact test.ifZero (by rwa [if_pos rfl])
  | ifNonzero _ nonzero _ test branch => exact test.ifZero (by rwa [if_neg nonzero])
  | lam body => exact computes_lam body
  | lamRec body => exact computes_lamRec body
  | app _ _ _ callee operand call => exact callee.app rfl operand call
  | appRec _ _ _ callee operand call => exact callee.app rfl operand call

/-- A function that counts its argument down to zero, and then gives 7. -/
def countdown : Expr :=
  .lamRec (.ifZero (.var 0) (.literal 7)
    (.app (.var 1) (.arith .sub (.var 0) (.literal 1))))

/-- The code of the function, called with 1. -/
def countdownCode : Code where
  capacity := 24
  words := #[8, 6, 1, 1, 9, 0, 2, 0, 6, 12, 15, 10, 1, 7, 11, 2, 1, 2, 0, 1, 1, 4, 9, 11]

/-- The recursive call, the branches and the way back, for which there is room. -/
theorem reaches_of_countdown :
    countdownCode.Holds (.app countdown (.literal 1)) 0 5 ∧
      Expr.Eval [] (.app countdown (.literal 1)) (.int 7) ∧
      Reaches countdownCode (fresh {}) (Yields countdownCode (fresh {}) 5 #[] (.int 7)) ∧
      Ends (fun result m => result = none ∧ m.stack.items = #[.int 7]) (fun _ _ => False)
        (advance countdownCode 17 (fresh {})) := by
  have test : countdownCode.Holds (.var 0) 6 8 := .var rfl ⟨0, rfl, rfl⟩
  have last : countdownCode.Holds (.literal 7) 12 14 := .literal rfl rfl
  have again : countdownCode.Holds (.app (.var 1) (.arith .sub (.var 0) (.literal 1))) 15 23 :=
    .app (.var rfl ⟨1, rfl, rfl⟩) (.arith (.var rfl ⟨0, rfl, rfl⟩) (.literal rfl rfl) rfl) rfl
  have inner := test.ifZero rfl ⟨12, rfl, rfl⟩ ⟨15, rfl, rfl⟩ last rfl again rfl
  have holds : countdownCode.Holds (.app countdown (.literal 1)) 0 5 :=
    .app (.lamRec rfl ⟨6, rfl, rfl⟩ inner rfl) (.literal rfl rfl) rfl
  have eval : Expr.Eval [] (.app countdown (.literal 1)) (.int 7) := by
    refine .appRec (.lamRec _) (.literal 1) (.ifNonzero (.var rfl) (by decide) ?_)
    refine .appRec (.var rfl) (.arith (.var rfl) (.literal 1)) ?_
    exact .ifZero (.var rfl) (.literal 7)
  exact ⟨holds, eval, reaches_of_eval holds rfl .nil eval, by decide +kernel⟩

end Secd.Machine
