import Secd.Opcode

/-!
An opcode with its operands. In assembly source the operands are still names or numerals; in code
they are words.
-/

namespace Secd

/-- An opcode and its operands, in order. -/
structure Instruction (α : Type) where
  op : Opcode
  operands : List α
  deriving DecidableEq

namespace Instruction

/-- How many words an instruction takes. -/
def size {α : Type} (i : Instruction α) : Nat := 1 + i.operands.length

/-- The words of an instruction. -/
def encode (i : Instruction Word) : List Word := i.op.word :: i.operands

end Instruction

end Secd
