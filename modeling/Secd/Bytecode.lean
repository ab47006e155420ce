import Secd.Code
import Secd.Input
import Secd.Log.Event
import Secd.Text.Lines

/-!
Bytecode text: numerals between blanks, one for each word of code, on any number of lines. Which
words are opcodes and which are operands is none of its business.

Reading appends words to code that may already hold some. It stops without an error when the code is
full and more numerals follow, whatever comes after. Otherwise a field that is no numeral, or a line
that is no text, ends it with an error; the words before stay.

      bytes ── lines, tokens ──▶ items ── one by one ──▶ code
-/

namespace Secd.Bytecode

open Log (Event)

/-- A piece of the input: a field with the number of its line, or a line that is no text. -/
inductive Item where
  | token (line : Nat) (text : List Char)
  | unreadable
  deriving DecidableEq

/-- The pieces of one line. -/
def lineItems (line : Nat) (bytes : List UInt8) : List Item :=
  match Text.decodeUtf8? bytes with
  | none => [.unreadable]
  | some text => (Text.tokens text).map (.token line)

/-- The pieces of an input, with its lines numbered from 1. -/
def items (bytes : List UInt8) : List Item :=
  ((Text.byteLines bytes).zipIdx 1).flatMap fun (line, number) => lineItems number line

/-- Why bytecode could not be loaded. -/
inductive Error where
  /-- There is no room for the code. -/
  | noRoom (fault : Fault)
  /-- The input could not be read. -/
  | unreadable (cause : ReadError)
  /-- A field is no numeral in range. -/
  | notInteger (line : Nat) (text : List Char) (cause : Numeral.Error)
  deriving DecidableEq

/-- The wording of an error, followed by that of its cause. -/
def Error.messages : Error → List String
  | noRoom fault => [fault.message]
  | unreadable cause => ["failed to read bytecode", cause.message]
  | notInteger line text cause =>
    [s!"line {line}: `{String.ofList text}` is not an integer", cause.message]

/-- How reading ended: with the input, after so many lines, or with the code, on a line. -/
inductive Ending where
  | complete (lines : Nat)
  | full (line : Nat)
  deriving DecidableEq

/-- What was read. -/
structure Report where
  words : Nat
  ending : Ending
  deriving DecidableEq

/-- The event that reading logs when it succeeds. -/
def Report.event (r : Report) (code : Code) : Event :=
  match r.ending with
  | .complete lines => .codeLoaded r.words lines
  | .full line => .codeFull code.capacity line

/-- Appends the words of the items to the code, after `words` of them, from `lines` lines in all. -/
def readItems (lines : Nat) : (words : Nat) → List Item → EStateM Error Code Report
  | words, [], code => .ok ⟨words, .complete lines⟩ code
  | _, .unreadable :: _, code => .error (.unreadable .invalidUtf8) code
  | words, .token line text :: rest, code =>
    if code.isFull then .ok ⟨words, .full line⟩ code
    else match Word.parse text with
      | .error cause => .error (.notInteger line text cause) code
      | .ok word => readItems lines (words + 1) rest (code.append word)

/-- Appends the words of an input to the code. -/
def read (source : Source) : EStateM Error Code Report :=
  match source.content with
  | .ok bytes => readItems (Text.byteLines bytes).length 0 (items bytes)
  | .error cause => throw (.unreadable cause)

/-- The code that a source holds, in fresh room. -/
def load (capacity : Nat) (source : Source) : Except Error (Code × Report) :=
  match Code.empty? capacity with
  | .error fault => .error (.noRoom fault)
  | .ok code =>
    match read source code with
    | .ok report code => .ok (code, report)
    | .error e _ => .error e

/-- The text that writes each word on a line of its own. -/
def render (words : List Word) : String := Text.unlines (words.map Word.render)

end Secd.Bytecode
