import Mathlib.Data.Int.ModEq
import Secd.Proofs.Cost

/-!
Arithmetic programs. A tree of literals and operators, written operands first, computes modulo
`2 ^ 64` what the tree is worth over the unbounded integers. Wrapping is a homomorphism, so it does
not matter which of the values in between overflow.

What such a program needs is room on the stack. While the right operand is computed the left one
waits below it:

      need (l op r)  =  max (need l) (1 + need r)

Nothing else can go wrong: there are no frames and no cells, and the stack is never too low.
-/

namespace Secd

/-- Of all words only one is congruent to an integer, and wrapping the integer gives it. -/
theorem Word.toInt_modEq_iff {n : Word} {v : Int} :
    n.toInt ≡ v [ZMOD 2 ^ 64] ↔ n = Int64.ofInt v := by
  rw [eq_comm, Int64.ofInt_eq_iff_bmod_eq_toInt]
  constructor
  · intro congruent
    have same : n.toInt % ((2 ^ 64 : Nat) : Int) = v % ((2 ^ 64 : Nat) : Int) := congruent
    rw [← Int.emod_bmod, ← same, Int.emod_bmod]
    exact n.toInt_bmod
  · intro same
    rw [← same]
    exact Int.bmod_emod

/-- What an operator does over the unbounded integers. -/
def Operator.exact : Operator → Int → Int → Int
  | add => (· + ·)
  | sub => (· - ·)
  | mul => (· * ·)

/-- Wrapping commutes with the operators. -/
theorem Operator.combine_ofInt (op : Operator) (x y : Int) :
    op.combine (Int64.ofInt x) (Int64.ofInt y) = Int64.ofInt (op.exact x y) := by
  cases op with
  | add => exact (Int64.ofInt_add x y).symm
  | sub => exact (Int64.ofInt_sub x y).symm
  | mul => exact (Int64.ofInt_mul x y).symm

/-- A tree of literals and operators. -/
inductive Tree where
  | literal (n : Word)
  | node (op : Operator) (left right : Tree)

namespace Tree

/-- The code of a tree, operands first. -/
def words : Tree → List Word
  | literal n => [Opcode.ldc.word, n]
  | node op left right => left.words ++ right.words ++ [op.opcode.word]

/-- The program of a tree: its code and a HALT. -/
def program (t : Tree) : Array Word := (t.words ++ [Opcode.halt.word]).toArray

/-- What the tree is worth over the unbounded integers. -/
def value : Tree → Int
  | literal n => n.toInt
  | node op left right => op.exact left.value right.value

/-- How high the stack gets. -/
def need : Tree → Nat
  | literal _ => 1
  | node _ left right => max left.need (1 + right.need)

/-- The tree as an expression. -/
def expr : Tree → Expr
  | literal n => .literal n
  | node op left right => .arith op left.expr right.expr

/-- The number of instructions. -/
def size : Tree → Nat
  | literal _ => 1
  | node _ left right => left.size + right.size + 1

theorem need_pos (t : Tree) : 0 < t.need := by
  cases t <;> simp only [need] <;> omega

/-- A tree is worth its value modulo `2 ^ 64`, and costs its need on the stack. -/
theorem spends (t : Tree) (env : List (Datum Expr)) :
    Expr.Spends env t.expr (.int (Int64.ofInt t.value)) ⟨t.size, t.need, 0, 0⟩ := by
  induction t with
  | literal n =>
    rw [value, Int64.ofInt_toInt]
    exact .literal n
  | node op left right first second =>
    have cost : Cost.and (Cost.and ⟨left.size, left.need, 0, 0⟩
        (Cost.above ⟨right.size, right.need, 0, 0⟩ 1 0)) ⟨1, 0, 0, 0⟩ =
        ⟨(node op left right).size, (node op left right).need, 0, 0⟩ := by
      simp only [Cost.and, Cost.above, size, need, Nat.max_zero, Nat.add_zero]
    rw [expr, value, ← op.combine_ofInt, ← cost]
    exact .arith first second

/-- Wherever its words lie, the code computes the tree. -/
theorem holds (t : Tree) {code : Code} {front back : List Word}
    (parts : code.words.toList = front ++ (t.words ++ back)) :
    code.Holds t.expr front.length (front ++ t.words).length := by
  induction t generalizing front back with
  | literal n =>
    rw [List.length_append]
    exact .literal (Code.fetch?_append parts 0) (Code.fetch?_append parts 1)
  | node op left right first second =>
    rw [words, List.append_assoc, List.append_assoc] at parts
    have holds₁ := first parts
    rw [← List.append_assoc] at parts
    have holds₂ := second parts
    rw [← List.append_assoc] at parts
    rw [words, ← List.append_assoc, ← List.append_assoc, List.length_append]
    exact .arith holds₁ holds₂ (Code.fetch?_append parts 0)

variable {caps : Capacities} {code : Code} {m : Machine}

/-- The program of a tree halts with its value modulo `2 ^ 64` if the stack stays above the need of
the tree, and otherwise finds the stack full, whatever the values in between are. -/
theorem execute_program (t : Tree) (loaded : Machine.load? t.program caps = .ok (code, m)) :
    (t.need < caps.stack → ∃ n : Word, Machine.execute t.program caps = .ok (.int n) ∧
      ∀ n' : Word, n'.toInt ≡ t.value [ZMOD 2 ^ 64] ↔ n' = n) ∧
    (caps.stack ≤ t.need → ∃ trap, Machine.execute t.program caps = .error trap ∧
      trap.fault = .exhausted .stack caps.stack) := by
  obtain ⟨isCode, rfl⟩ := Machine.load?_eq_ok loaded
  have parts : code.words.toList = [] ++ (t.words ++ [Opcode.halt.word]) := by
    rw [isCode]
    rfl
  have halt : code.HasOp t.words.length .halt := by
    rw [← List.append_assoc] at parts
    exact Code.fetch?_append parts 0
  have need := t.need_pos
  simp only [Machine.execute, loaded]
  rcases Machine.run_fits_or_exhausts (t.spends []) (t.holds parts) halt caps with
    ⟨m', ran, -, fits⟩ | ⟨trap, m', segment, ran, fault, lacks⟩
  · rw [ran]
    have room : t.need = 0 ∨ t.need < caps.stack := fits .stack
    refine ⟨fun _ => ⟨_, rfl, fun n' => Word.toInt_modEq_iff⟩, fun full => ?_⟩
    omega
  · rw [ran]
    have isStack : segment = .stack := by
      cases segment with
      | stack => rfl
      | code => exact absurd trivial lacks
      | dump => exact absurd (.inl rfl) lacks
      | heap => exact absurd (Nat.zero_le _) lacks
    subst isStack
    have full : ¬ (t.need = 0 ∨ t.need < caps.stack) := lacks
    exact ⟨fun room => absurd (.inr room) full, fun _ => ⟨trap, rfl, fault⟩⟩

/-- Twice the greatest word, less the greatest word. -/
def doubled : Tree :=
  .node .sub (.node .mul (.literal 9223372036854775807) (.literal 2)) (.literal 9223372036854775807)

/-- The product overflows, and the difference is right again. Two items have to fit. -/
theorem execute_program_of_doubled :
    ∃ code m code' m', Machine.load? doubled.program { stack := 3 } = .ok (code, m) ∧
      Machine.load? doubled.program { stack := 2 } = .ok (code', m') ∧
      Machine.execute doubled.program { stack := 3 } = .ok (.int 9223372036854775807) ∧
      ∃ trap, Machine.execute doubled.program { stack := 2 } = .error trap ∧
        trap.fault = .exhausted .stack 2 := by
  have loaded : Machine.load? doubled.program { stack := 3 } =
    .ok (⟨65536, doubled.program⟩, Machine.fresh { stack := 3 }) := rfl
  have loaded' : Machine.load? doubled.program { stack := 2 } =
    .ok (⟨65536, doubled.program⟩, Machine.fresh { stack := 2 }) := rfl
  obtain ⟨n, ran, unique⟩ := (execute_program doubled loaded).1 (by decide)
  have greatest : (9223372036854775807 : Word) = n := (unique _).1 rfl
  refine ⟨_, _, _, _, loaded, loaded', greatest ▸ ran, ?_⟩
  exact (execute_program doubled loaded').2 (by decide)

end Tree

end Secd
