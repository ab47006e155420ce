import Secd.Instruction

/-!
Assembly source, line by line. A line may define labels, each followed by a colon, and may then give
one instruction; a semicolon or a number sign begins a comment.

      loop: again:   SEL zero, nonzero   ; pick a branch
      └─ labels ─┘   └─ instruction ─┘   └─ comment ─┘

A line is read on its own. Whether a label was defined before, or an operand is one, takes the other
lines, and is settled by the layout.
-/

namespace Secd.Assembly

/-- A label, mnemonic or operand as it is written. -/
abbrev Name := List Char

/-- What can be wrong with a line. -/
inductive Problem where
  | invalidLabel (label : Name)
  | duplicateLabel (label : Name)
  | unknownInstruction (mnemonic : Name)
  | operandCount (op : Opcode) (given : Nat)
  | undefinedLabel (operand : Name)
  deriving DecidableEq

/-- A problem, and the line that has it. -/
structure Error where
  line : Nat
  problem : Problem
  deriving DecidableEq

/-- The wording of a problem. -/
def Problem.message : Problem → String
  | invalidLabel label => s!"invalid label `{String.ofList label}`"
  | duplicateLabel label => s!"duplicate label `{String.ofList label}`"
  | unknownInstruction mnemonic => s!"unknown instruction `{String.ofList mnemonic}`"
  | operandCount op given => s!"{op.mnemonic} takes {op.operandCount} operand(s), got {given}"
  | undefinedLabel operand => s!"undefined label `{String.ofList operand}`"

/-- The wording of an error. -/
def Error.message (e : Error) : String := s!"line {e.line}: {e.problem.message}"

/-- A line of source: the labels it defines, up to the first that is none, and what follows them. -/
structure Statement where
  line : Nat
  labels : List Name
  body : Except Problem (Option (Instruction Name))

/-- The character can begin a label. -/
def isLabelStart (c : Char) : Bool := c.isAlpha || c == '_'

/-- The character can stand inside a label. -/
def isLabelPart (c : Char) : Bool := c.isAlphanum || c == '_' || c == '.'

/-- The name can be a label. -/
def isLabel : Name → Bool
  | [] => false
  | c :: cs => isLabelStart c && cs.all isLabelPart

/-- The line without its comment. -/
def uncomment (cs : List Char) : List Char := cs.takeWhile fun c => c != ';' && c != '#'

/-- What stands between the parts of an instruction: blanks and commas. -/
def isSeparator (c : Char) : Bool := Text.isBlank c || c == ','

/-- Reads what follows the labels of a line: one instruction or nothing. -/
def parseInstruction (cs : List Char) : Except Problem (Option (Instruction Name)) :=
  match Text.fields isSeparator cs with
  | [] => .ok none
  | mnemonic :: operands =>
    match Opcode.ofMnemonic? mnemonic with
    | none => .error (.unknownInstruction mnemonic)
    | some op =>
      if operands.length = op.operandCount then .ok (some ⟨op, operands⟩)
      else .error (.operandCount op operands.length)

namespace Statement

/-- Reads a line. -/
def ofLine (line : Nat) (cs : List Char) : Statement :=
  let pieces := (uncomment cs).splitOn ':'
  let (labels, others) := (pieces.dropLast.map Text.trim).span isLabel
  match others with
  | [] => ⟨line, labels, parseInstruction (pieces.getLastD [])⟩
  | label :: _ => ⟨line, labels, .error (.invalidLabel label)⟩

/-- Reads all lines of a text, numbered from 1. -/
def ofText (text : List Char) : List Statement :=
  ((text.splitOn '\n').zipIdx 1).map fun (cs, line) => ofLine line cs

end Statement

end Secd.Assembly
