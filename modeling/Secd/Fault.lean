import Secd.Opcode
import Secd.Value

/-!
Everything that can go wrong while a machine is built or runs, with one wording for each cause.

A fault tells what was wanted and what was found. A trap adds where: the address of the instruction
that was being executed.
-/

namespace Secd

/-- The four bounded stores of a machine. -/
inductive Segment where
  | code | stack | dump | heap
  deriving DecidableEq

/-- The name of a store in messages. -/
def Segment.name : Segment → String
  | code => "code segment"
  | stack => "operand stack"
  | dump => "dump"
  | heap => "heap"

/-- Why an operation of the machine failed. -/
inductive Fault where
  /-- A store has no room left. -/
  | exhausted (segment : Segment) (capacity : Nat)
  /-- A store of this capacity cannot be set aside. -/
  | unreservable (segment : Segment) (capacity : Nat)
  /-- The word at the program counter encodes no instruction. -/
  | badOpcode (word : Word)
  /-- The operand of an instruction is out of its range. -/
  | badOperand (op : Opcode) (word : Word)
  /-- A pop met an empty store. -/
  | underflow (segment : Segment)
  /-- An address does not lie in the code. -/
  | outOfCode (address : Int) (length : Nat)
  /-- An environment has fewer bindings than the index asks for. -/
  | unbound (index depth : Nat)
  /-- A recursive binding was read before its closure was known. -/
  | untied (index : Nat)
  /-- A value is of the wrong kind. -/
  | valueKind (expected found : Value.Kind)
  /-- A frame is of the wrong kind. -/
  | frameKind (expected found : Frame.Kind)
  /-- A cell is of the wrong kind. -/
  | cellKind (cell : CellId) (expected found : Cell.Kind)
  /-- A cell does not exist. -/
  | dangling (cell : CellId)
  deriving DecidableEq

namespace Fault

/-- Faults by their remedy: more capacity, more memory, or a different program. -/
inductive Kind where
  | exhaustion | allocation | malformed
  deriving DecidableEq

/-- The kind of a fault. -/
def kind : Fault → Kind
  | exhausted _ _ => .exhaustion
  | unreservable _ _ => .allocation
  | _ => .malformed

/-- The instruction that pops a frame of the given kind. -/
def popper : Frame.Kind → Opcode
  | .branch => .join
  | .call => .rtn

/-- The wording of a fault. -/
def message : Fault → String
  | exhausted segment capacity => s!"{segment.name} exhausted (capacity {capacity})"
  | unreservable segment capacity =>
    s!"cannot reserve {capacity} entries for the {segment.name}"
  | badOpcode word => s!"invalid opcode {word.render}"
  | badOperand op word => s!"invalid operand {word.render} for {op.mnemonic}"
  | underflow segment => s!"{segment.name} underflow"
  | outOfCode address length =>
    s!"code address {address} is outside the loaded code (length {length})"
  | unbound index depth =>
    s!"environment index {index} out of range ({depth} bindings in scope)"
  | untied index => s!"recursive binding at index {index} read before it was tied"
  | valueKind expected found => s!"expected {expected.name}, found {found.name}"
  | frameKind expected found =>
    let op := popper expected
    s!"{op.mnemonic} expected a {expected.name} frame on the dump, found a {found.name} frame"
  | cellKind cell expected found =>
    s!"heap cell {cell} holds a {found.name}, expected a {expected.name}"
  | dangling cell => s!"heap cell {cell} was never allocated"

end Fault

/-- A fault, and the address of the instruction that raised it. -/
structure Trap where
  pc : Nat
  fault : Fault
  deriving DecidableEq

/-- The wording of a trap. -/
def Trap.message (t : Trap) : String := s!"{t.fault.message} at program counter {t.pc}"

/-- How many bytes a piece of memory can have: less than two to the power of 63. -/
def bytesMax : Nat := 0x7FFFFFFFFFFFFFFF

namespace Segment

/-- How many bytes an item of a store takes. -/
def itemSize : Segment → Nat
  | code => 8
  | stack => 16
  | dump => 24
  | heap => 32

/-- How many items a store can have, since it is one piece of memory. -/
def itemsMax (segment : Segment) : Nat := bytesMax / segment.itemSize

/-- Sets a store of the given capacity aside. -/
def reserve (segment : Segment) (capacity : Nat) : Except Fault Unit :=
  if capacity ≤ segment.itemsMax then .ok () else .error (.unreservable segment capacity)

end Segment

end Secd
