import Secd.Assembly.Statement

/-!
Where everything goes. Instructions are laid out one after the other from address 0, and a label
stands for the address at which the next instruction after it starts. A label may be used before the
line that defines it, so the layout of the whole text comes first and the words come second.
-/

namespace Secd.Assembly

/-- The labels defined so far, and the address of the next instruction. -/
structure Layout where
  labels : List (Name × Nat)
  address : Nat
  deriving DecidableEq

namespace Layout

/-- The layout of no lines. -/
def empty : Layout := ⟨[], 0⟩

/-- The address that a label stands for. -/
def address? (layout : Layout) (label : Name) : Option Nat := layout.labels.lookup label

/-- Defines a label at the address of the next instruction; a label is defined only once. -/
def define (line : Nat) (layout : Layout) (label : Name) : Except Error Layout :=
  match layout.address? label with
  | some _ => .error ⟨line, .duplicateLabel label⟩
  | none => .ok { layout with labels := (label, layout.address) :: layout.labels }

/-- Lays out one more line. -/
def place (layout : Layout) (s : Statement) : Except Error Layout := do
  let layout ← s.labels.foldlM (define s.line) layout
  match s.body with
  | .error problem => .error ⟨s.line, problem⟩
  | .ok none => .ok layout
  | .ok (some i) => .ok { layout with address := layout.address + i.size }

/-- The layout of a whole text. -/
def ofStatements (statements : List Statement) : Except Error Layout :=
  statements.foldlM place empty

/-- The word that an operand stands for: a numeral for itself, a label for its address. -/
def resolve (layout : Layout) (line : Nat) (operand : Name) : Except Error Word :=
  match Word.parse operand with
  | .ok word => .ok word
  | .error _ =>
    match layout.address? operand with
    | some address => .ok (Int64.ofNat address)
    | none => .error ⟨line, .undefinedLabel operand⟩

/-- The words of a line. -/
def encode (layout : Layout) (s : Statement) : Except Error (List Word) :=
  match s.body with
  | .ok (some i) => do
    let operands ← i.operands.mapM (layout.resolve s.line)
    return (Instruction.mk i.op operands).encode
  | _ => .ok []

end Layout

/-- Assembles a text: lays all of it out, then encodes its lines in order. -/
def assemble (text : String) : Except Error (List Word) := do
  let statements := Statement.ofText text.toList
  let layout ← Layout.ofStatements statements
  let words ← statements.mapM layout.encode
  return words.flatten

end Secd.Assembly
