import Secd.Instruction

/-!
Listings of code. Words are decoded from the front: an opcode with all of its operands is one entry;
any other word, an opcode cut short by the end of the code among them, is an entry of data.

          0: LDC 7
          2: HALT
          3: .word 99
-/

namespace Secd.Listing

/-- A piece of code at an address. Without an opcode the words are data. -/
structure Entry where
  address : Nat
  op : Option Opcode
  operands : List Word
  deriving DecidableEq

namespace Entry

/-- The words that the entry lists. -/
def words (e : Entry) : List Word :=
  match e.op with
  | some op => op.word :: e.operands
  | none => e.operands

/-- A number in a column of the given width, at its right edge. -/
def column (width n : Nat) : String :=
  String.ofList (n.repr.toList.leftpad width ' ')

/-- What follows the address: an instruction, or the first word of the data. -/
def body (e : Entry) : String :=
  match e.op with
  | some op => " ".intercalate (op.mnemonic :: e.operands.map Word.render)
  | none => " ".intercalate (".word" :: (e.operands.take 1).map Word.render)

/-- The line of the entry. -/
def render (e : Entry) : String := s!"{column 5 e.address}: {e.body}"

end Entry

/-- The first `n` words and the others, if there are as many. -/
def splitExactly? : Nat → List Word → Option (List Word × List Word)
  | 0, words => some ([], words)
  | _ + 1, [] => none
  | n + 1, word :: words => (splitExactly? n words).map fun (front, back) => (word :: front, back)

theorem splitExactly?_eq_some_iff {n : Nat} {words front back : List Word} :
    splitExactly? n words = some (front, back) ↔ words = front ++ back ∧ front.length = n := by
  induction n generalizing words front back with
  | zero => cases front <;> simp [splitExactly?, eq_comm]
  | succ n ih =>
    cases words with
    | nil => cases front <;> simp [splitExactly?]
    | cons word words =>
      cases front with
      | nil => simp [splitExactly?]
      | cons f fs =>
        simp only [splitExactly?, Option.map_eq_some_iff, Prod.exists, ih]
        grind

/-- Decodes the entry that starts with a word; the result has the words that are left. -/
def decode (address : Nat) (word : Word) (words : List Word) : Entry × List Word :=
  match Opcode.ofWord? word with
  | none => (⟨address, none, [word]⟩, words)
  | some op =>
    match splitExactly? op.operandCount words with
    | none => (⟨address, none, [word]⟩, words)
    | some (operands, rest) => (⟨address, some op, operands⟩, rest)

/-- A word is decoded as data, or as the opcode that it encodes with the operands that follow. -/
theorem decode_cases (address : Nat) (word : Word) (words : List Word) :
    decode address word words = (⟨address, none, [word]⟩, words) ∨
      ∃ op operands rest, word = op.word ∧ words = operands ++ rest ∧
        operands.length = op.operandCount ∧
        decode address word words = (⟨address, some op, operands⟩, rest) := by
  unfold decode
  split
  · exact .inl rfl
  · rename_i op isOpcode
    split
    · exact .inl rfl
    · rename_i operands rest found
      obtain ⟨parts, length⟩ := splitExactly?_eq_some_iff.1 found
      exact .inr ⟨op, operands, rest, Opcode.ofWord?_eq_some_iff.1 isOpcode, parts, length, rfl⟩

theorem length_decode_lt (address : Nat) (word : Word) (words : List Word) :
    (decode address word words).2.length < (word :: words).length := by
  rcases decode_cases address word words with h | ⟨op, operands, rest, rfl, rfl, -, h⟩
  · simp [h]
  · simp only [h, List.length_cons, List.length_append]
    omega

/-- Adds the entries of the words from an address on to a listing. -/
def entriesFrom (listing : Array Entry) (address : Nat) : List Word → Array Entry
  | [] => listing
  | word :: words =>
    let decoded := decode address word words
    entriesFrom (listing.push decoded.1) (address + decoded.1.words.length) decoded.2
termination_by words => words.length
decreasing_by exact length_decode_lt address word words

/-- The listing of code. -/
def ofWords (words : List Word) : List Entry := (entriesFrom #[] 0 words).toList

/-- The lines of the listing of code. -/
def lines (words : List Word) : List String := (ofWords words).map Entry.render

end Secd.Listing
