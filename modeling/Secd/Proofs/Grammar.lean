import Mathlib.Data.List.Forall2
import Secd.Assembly.Layout
import Secd.Proofs.Lexical

/-!
The language of assembly source, as a grammar. It has no passes and no layout: a text is read line
by line, and what its labels stand for is said by looking at the lines as a whole.

      text        lines, each as far as its first ; or #
      line        label : … label :  and then nothing or an instruction
      instruction a mnemonic in capitals or not, and as many operands as it takes
      operand     the literal of a word, or a label of the text

A label stands for the number of words before the line that defines it, which is where the next
instruction starts, or where the code ends if there is none.
-/

namespace Secd.Assembly

/-! ### Names -/

/-- The letters of ASCII and the underscore. -/
def LabelStart (c : Char) : Prop := 'A' ≤ c ∧ c ≤ 'Z' ∨ 'a' ≤ c ∧ c ≤ 'z' ∨ c = '_'

/-- The same, the digits and the full stop. -/
def LabelPart (c : Char) : Prop := LabelStart c ∨ '0' ≤ c ∧ c ≤ '9' ∨ c = '.'

/-- The name of a label. -/
inductive LabelName : Name → Prop where
  | intro {c : Char} {cs : List Char} (first : LabelStart c) (others : ∀ d ∈ cs, LabelPart d) :
      LabelName (c :: cs)

/-- The name is a mnemonic of which each letter is a capital or a small one. -/
def Spells (name : Name) (op : Opcode) : Prop :=
  List.Forall₂ (fun c capital => c = capital ∨ c = capital.toLower) name op.mnemonic.toList

/-! ### Lines -/

/-- A line up to its first semicolon or number sign. -/
def Cut (cs body : List Char) : Prop :=
  ∃ comment, cs = body ++ comment ∧ (∀ c ∈ body, c ≠ ';' ∧ c ≠ '#') ∧
    ∀ c ∈ comment.head?, c = ';' ∨ c = '#'

/-- A line of source as it is understood. -/
structure Line where
  labels : List Name
  instruction : Option (Instruction Name)

/-- How many words the line contributes. -/
def Line.size (line : Line) : Nat :=
  match line.instruction with
  | none => 0
  | some i => i.size

/-- A line without comment is read as labels and perhaps an instruction. -/
inductive Reads : List Char → Line → Prop where
  | nothing {gap : List Char} (separates : ∀ c ∈ gap, isSeparator c = true) : Reads gap ⟨[], none⟩
  | instruction {cs : List Char} {mnemonic : Name} {op : Opcode} {operands : List Name}
      (fields : Text.Fields isSeparator cs (mnemonic :: operands)) (spells : Spells mnemonic op)
      (count : operands.length = op.operandCount) : Reads cs ⟨[], some ⟨op, operands⟩⟩
  | label {front label back rest : List Char} {line : Line}
      (blank : ∀ c ∈ front, Text.isBlank c = true) (name : LabelName label)
      (blank' : ∀ c ∈ back, Text.isBlank c = true) (more : Reads rest line) :
      Reads (front ++ label ++ back ++ ':' :: rest) { line with labels := label :: line.labels }

/-! ### Texts -/

/-- The number of words of some lines. -/
def extent : List Line → Nat
  | [] => 0
  | line :: lines => line.size + extent lines

/-- The label is defined in one of the lines, behind that many words. -/
def Places (lines : List Line) (label : Name) (address : Nat) : Prop :=
  ∃ before line after, lines = before ++ line :: after ∧ label ∈ line.labels ∧
    address = extent before

/-- What an operand stands for, in a text of these lines. -/
inductive Stands (lines : List Line) : Name → Word → Prop where
  | literal {operand : Name} {word : Word} (literal : Literal operand word.toInt) :
      Stands lines operand word
  | label {operand : Name} {address : Nat} (places : Places lines operand address) :
      Stands lines operand (Int64.ofNat address)

/-- The words that a line contributes, in a text of these lines. -/
inductive Contributes (lines : List Line) : Line → List Word → Prop where
  | nothing (labels : List Name) : Contributes lines ⟨labels, none⟩ []
  | instruction {op : Opcode} {operands : List Name} {values : List Word} (labels : List Name)
      (stand : List.Forall₂ (Stands lines) operands values) :
      Contributes lines ⟨labels, some ⟨op, operands⟩⟩ (op.word :: values)

/-- The text is in the language, and these are its lines. -/
structure Valid (text : String) (lines : List Line) : Prop where
  reads : List.Forall₂ (fun cs line => ∃ body, Cut cs body ∧ Reads body line)
    (text.toList.splitOn '\n') lines
  unique : (lines.flatMap Line.labels).Nodup
  operands : ∀ line ∈ lines, ∀ i ∈ line.instruction, ∀ operand ∈ i.operands,
    ∃ word, Stands lines operand word

/-- The words of a part of the lines, in order. -/
def Emits (lines part : List Line) (words : List Word) : Prop :=
  ∃ pieces, List.Forall₂ (Contributes lines) part pieces ∧ words = pieces.flatten

/-- The words of all lines, in order. -/
def Encodes (lines : List Line) (words : List Word) : Prop := Emits lines lines words

end Secd.Assembly
