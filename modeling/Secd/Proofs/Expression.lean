import Secd.Proofs.Denotation

/-!
The language that the instruction set is made for: integers with wrapping arithmetic, a test for
zero, functions of one argument and functions that can call themselves. Variables count binders from
the inside out, and a recursive function sees its argument at index 0 and itself at index 1.

Expressions are evaluated call by value over lists of values, the function before its argument. How
they lie in the code is a relation of its own, so that it speaks of all code that follows the
conventions and not of one way to produce it:

      literal n          LDC n
      var i              LD i
      arith op l r       l, r, ADD or SUB or MUL
      ifZero c t f       c, SEL t' f'      elsewhere  t': t, JOIN   f': f, JOIN
      lam b, lamRec b    LDF p, LDRF p     elsewhere  p: b, RTN
      app f a            f, a, AP
-/

namespace Secd

/-- The arithmetic of the language. -/
inductive Operator where
  | add | sub | mul
  deriving DecidableEq

namespace Operator

/-- The instruction of an operator. -/
def opcode : Operator → Opcode
  | add => .add
  | sub => .sub
  | mul => .mul

/-- The value of an operator, modulo `2 ^ 64`. -/
def combine : Operator → Word → Word → Word
  | add => (· + ·)
  | sub => (· - ·)
  | mul => (· * ·)

end Operator

/-- Expressions, with variables as indices. -/
inductive Expr where
  | literal (n : Word)
  | var (index : Nat)
  | arith (op : Operator) (left right : Expr)
  | ifZero (condition onZero onNonzero : Expr)
  | lam (body : Expr)
  | lamRec (body : Expr)
  | app (function argument : Expr)
  deriving DecidableEq

/-- An expression has a value in an environment. -/
inductive Expr.Eval : List (Datum Expr) → Expr → Datum Expr → Prop where
  | literal {env : List (Datum Expr)} (n : Word) : Eval env (.literal n) (.int n)
  | var {env : List (Datum Expr)} {index : Nat} {value : Datum Expr}
      (bound : env[index]? = some value) : Eval env (.var index) value
  | arith {env : List (Datum Expr)} {op : Operator} {left right : Expr} {x y : Word}
      (first : Eval env left (.int x)) (second : Eval env right (.int y)) :
      Eval env (.arith op left right) (.int (op.combine x y))
  | ifZero {env : List (Datum Expr)} {condition onZero onNonzero : Expr} {value : Datum Expr}
      (test : Eval env condition (.int 0)) (branch : Eval env onZero value) :
      Eval env (.ifZero condition onZero onNonzero) value
  | ifNonzero {env : List (Datum Expr)} {condition onZero onNonzero : Expr} {n : Word}
      {value : Datum Expr} (test : Eval env condition (.int n)) (nonzero : n ≠ 0)
      (branch : Eval env onNonzero value) : Eval env (.ifZero condition onZero onNonzero) value
  | lam {env : List (Datum Expr)} (body : Expr) : Eval env (.lam body) (.plain body env)
  | lamRec {env : List (Datum Expr)} (body : Expr) : Eval env (.lamRec body) (.recursive body env)
  | app {env captured : List (Datum Expr)} {function argument body : Expr}
      {input value : Datum Expr} (callee : Eval env function (.plain body captured))
      (operand : Eval env argument input) (call : Eval (input :: captured) body value) :
      Eval env (.app function argument) value
  | appRec {env captured : List (Datum Expr)} {function argument body : Expr}
      {input value : Datum Expr} (callee : Eval env function (.recursive body captured))
      (operand : Eval env argument input)
      (call : Eval (input :: .recursive body captured :: captured) body value) :
      Eval env (.app function argument) value

namespace Code

/-- The code at an address encodes an opcode. -/
def HasOp (code : Code) (address : Nat) (op : Opcode) : Prop := code.fetch? address = some op.word

/-- The word at an address is a number, such as an index or another address. -/
def HasIndex (code : Code) (address index : Nat) : Prop :=
  ∃ word, code.fetch? address = some word ∧ word.toIndex? = some index

/-- The code from one address up to another computes an expression. -/
inductive Holds (code : Code) : Expr → Nat → Nat → Prop where
  | literal {start : Nat} {n : Word} (op : code.HasOp start .ldc)
      (operand : code.fetch? (start + 1) = some n) : Holds code (.literal n) start (start + 2)
  | var {start index : Nat} (op : code.HasOp start .ld)
      (operand : code.HasIndex (start + 1) index) : Holds code (.var index) start (start + 2)
  | arith {operator : Operator} {left right : Expr} {start middle stop : Nat}
      (first : Holds code left start middle) (second : Holds code right middle stop)
      (op : code.HasOp stop operator.opcode) :
      Holds code (.arith operator left right) start (stop + 1)
  | ifZero {condition onZero onNonzero : Expr} {start middle t f stopT stopF : Nat}
      (test : Holds code condition start middle) (op : code.HasOp middle .sel)
      (targetT : code.HasIndex (middle + 1) t) (targetF : code.HasIndex (middle + 2) f)
      (branchT : Holds code onZero t stopT) (joinT : code.HasOp stopT .join)
      (branchF : Holds code onNonzero f stopF) (joinF : code.HasOp stopF .join) :
      Holds code (.ifZero condition onZero onNonzero) start (middle + 3)
  | lam {body : Expr} {start entry stop : Nat} (op : code.HasOp start .ldf)
      (target : code.HasIndex (start + 1) entry) (inner : Holds code body entry stop)
      (ret : code.HasOp stop .rtn) : Holds code (.lam body) start (start + 2)
  | lamRec {body : Expr} {start entry stop : Nat} (op : code.HasOp start .ldrf)
      (target : code.HasIndex (start + 1) entry) (inner : Holds code body entry stop)
      (ret : code.HasOp stop .rtn) : Holds code (.lamRec body) start (start + 2)
  | app {function argument : Expr} {start middle stop : Nat}
      (callee : Holds code function start middle) (operand : Holds code argument middle stop)
      (op : code.HasOp stop .ap) : Holds code (.app function argument) start (stop + 1)

/-- The body of a function starts at an address: its code, and then a return. -/
def Enters (code : Code) (entry : Nat) (body : Expr) : Prop :=
  ∃ stop, code.Holds body entry stop ∧ code.HasOp stop .rtn

theorem HasOp.lt_size {code : Code} {address : Nat} {op : Opcode} (found : code.HasOp address op) :
    address < code.size :=
  (Array.getElem?_eq_some_iff.1 found).1

/-- The code of an expression is not empty. -/
theorem Holds.lt_size {code : Code} {e : Expr} {start stop : Nat}
    (holds : code.Holds e start stop) : start < code.size := by
  induction holds with
  | literal op | var op | lam op | lamRec op => exact op.lt_size
  | arith _ _ _ first => exact first
  | ifZero _ _ _ _ _ _ _ _ test => exact test
  | app _ _ _ callee => exact callee

/-- An operand that names the start of an expression is an address of the code. -/
theorem address_of_holds {code : Code} {e : Expr} {target : Word} {start stop : Nat}
    (index : target.toIndex? = some start) (holds : code.Holds e start stop) :
    code.address target = .ok start := by
  simp only [address, index, if_pos holds.lt_size]

end Code

end Secd
