import Secd.Word
import Secd.Text.Blank

/-!
The instruction set. An instruction is an opcode word followed by its operand words, and three
tables describe the encoding: the number of an opcode, its mnemonic, and how many operands it takes.

    HALT            pop the result and stop          LDF f     push a closure of the code at f
    LDC n           push the integer n               LDRF f    the same, bound to itself
    LD i            push the i-th binding            AP        apply a closure to an argument
    ADD, SUB, MUL   combine the two topmost          RTN       return from a closure
    SEL t f         branch to t on zero, else to f   JOIN      return from a branch
-/

namespace Secd

/-- The twelve instructions. -/
inductive Opcode where
  | halt | ldc | ld | add | sub | mul | sel | ldf | ldrf | ap | rtn | join
  deriving DecidableEq

namespace Opcode

/-- All opcodes, in the order of their numbers. -/
def all : List Opcode := [halt, ldc, ld, add, sub, mul, sel, ldf, ldrf, ap, rtn, join]

/-- The number that encodes an opcode. -/
def number : Opcode → Nat
  | halt => 0 | ldc => 1 | ld => 2 | add => 3 | sub => 4 | mul => 5
  | sel => 6 | ldf => 7 | ldrf => 8 | ap => 9 | rtn => 10 | join => 11

/-- The word that encodes an opcode. -/
def word (op : Opcode) : Word := Int64.ofNat op.number

/-- The opcode that a word encodes, if any. -/
def ofWord? (w : Word) : Option Opcode :=
  match w.toInt with
  | 0 => some halt | 1 => some ldc | 2 => some ld | 3 => some add
  | 4 => some sub | 5 => some mul | 6 => some sel | 7 => some ldf
  | 8 => some ldrf | 9 => some ap | 10 => some rtn | 11 => some join
  | _ => none

/-- The name of an opcode in assembly source and in listings. -/
def mnemonic : Opcode → String
  | halt => "HALT" | ldc => "LDC" | ld => "LD" | add => "ADD" | sub => "SUB" | mul => "MUL"
  | sel => "SEL" | ldf => "LDF" | ldrf => "LDRF" | ap => "AP" | rtn => "RTN" | join => "JOIN"

/-- The opcode with a given mnemonic, written in capitals or not. -/
def ofMnemonic? (name : List Char) : Option Opcode :=
  all.find? fun op => op.mnemonic.toList == Text.upper name

/-- How many operand words follow an opcode. -/
def operandCount : Opcode → Nat
  | ldc | ld | ldf | ldrf => 1
  | sel => 2
  | halt | add | sub | mul | ap | rtn | join => 0

/-! ### The encoding is faithful -/

@[simp] theorem ofWord?_word (op : Opcode) : ofWord? op.word = some op := by
  cases op <;> decide

theorem word_inj {op op' : Opcode} (h : op.word = op'.word) : op = op' := by
  simpa using congrArg ofWord? h

/-- A word decodes to an opcode only if it is the word of that opcode. -/
theorem ofWord?_eq_some_iff {w : Word} {op : Opcode} : ofWord? w = some op ↔ w = op.word := by
  constructor
  · intro h
    unfold ofWord? at h
    rw [← Int64.toInt_inj]
    split at h <;> cases h
    all_goals simpa using ‹w.toInt = _›
  · rintro rfl
    exact ofWord?_word op

end Opcode

end Secd
