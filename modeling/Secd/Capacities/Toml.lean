import Secd.Capacities
import Secd.Text.Numeral

/-!
Capacities from a configuration file. The file is a TOML document whose only keys are the names of
the four stores, each with an integer. A document with tables, dotted keys or values of another type
is no such file, so what has to be read is a sequence of lines, each of which is one of these:

      heap = 1_048_576     an entry
      heap = 16 # small    an entry with a comment
      (nothing)            or a comment alone

Keys may be quoted, integers may be decimal, hexadecimal, octal or binary and may have underscores
between their digits. Stores that are not named keep their default size.
-/

namespace Secd.Capacities.Toml

/-- The blanks of TOML. -/
def isSpace (c : Char) : Bool := c == ' ' || c == '\t'

/-- The text without the blanks at its front. -/
def skipSpaces (cs : List Char) : List Char := cs.dropWhile isSpace

/-! ### Keys -/

/-- The character can stand in a key without quotes. -/
def isBare (c : Char) : Bool := c.isAlphanum || c == '_' || c == '-'

/-- How many hexadecimal digits an escape has, by the letter after its backslash. -/
def escapeWidth? : Char → Option Nat
  | 'x' => some 2
  | 'u' => some 4
  | 'U' => some 8
  | _ => none

/-- Reads a key in double quotes from behind the first of them. Escapes that are not numeric stand
for characters that no key has, so they are not read. -/
def quotedKey? (key : List Char) : List Char → Option (List Char × List Char)
  | '"' :: rest => some (key.reverse, rest)
  | '\\' :: c :: rest => do
    let width ← escapeWidth? c
    let code ← if width ≤ rest.length then Numeral.digits? 16 (rest.take width) else none
    quotedKey? (Char.ofNat code :: key) (rest.drop width)
  | c :: rest => if c == '\\' then none else quotedKey? (c :: key) rest
  | [] => none
termination_by cs => cs.length
decreasing_by all_goals simp only [List.length_cons, List.length_drop]; omega

/-- Reads a key; the result is the key and what follows it. -/
def key? (cs : List Char) : Option (List Char × List Char) :=
  match cs with
  | '"' :: rest => quotedKey? [] rest
  | '\'' :: rest =>
    match rest.dropWhile (· != '\'') with
    | [] => none
    | _ :: after => some (rest.takeWhile (· != '\''), after)
  | _ => some (cs.takeWhile isBare, cs.dropWhile isBare)

/-- The store that a key names. -/
def segment? (key : List Char) : Option Segment :=
  [Segment.code, .stack, .dump, .heap].find? fun segment => segment.key.toList == key

/-! ### Integers -/

/-- Takes the underscores out of a run of digits; each has to stand between two digits. -/
def ungroup? (cs : List Char) : Option (List Char) :=
  let groups := cs.splitOn '_'
  if groups.any List.isEmpty then none else some groups.flatten

/-- Reads a decimal number: digits without a zero in front of others. -/
def decimal? (cs : List Char) : Option Nat := do
  let digits ← ungroup? cs
  let n ← Numeral.digits? 10 digits
  if digits.length > 1 && digits.head? == some '0' then none else some n

/-- Reads digits of another base. -/
def based? (base : Nat) (cs : List Char) : Option Nat := do
  Numeral.digits? base (← ungroup? cs)

/-- Reads an integer that is not negative; zero may have any sign. -/
def natural? : List Char → Option Nat
  | '0' :: 'x' :: cs => based? 16 cs
  | '0' :: 'o' :: cs => based? 8 cs
  | '0' :: 'b' :: cs => based? 2 cs
  | '+' :: cs => decimal? cs
  | '-' :: cs => (decimal? cs).filter (· == 0)
  | cs => decimal? cs

/-- The character can stand in an integer. -/
def isNumeric (c : Char) : Bool := c.isAlphanum || c == '_' || c == '+' || c == '-'

/-! ### Lines -/

/-- The character can stand in a comment: all but the control characters other than the tab. -/
def isCommentChar (c : Char) : Bool := c == '\t' || (c.toNat ≥ 0x20 && c.toNat != 0x7F)

/-- Nothing follows on the line, or only a comment. -/
def isLineEnd (cs : List Char) : Bool :=
  match skipSpaces cs with
  | [] => true
  | '#' :: comment => comment.all isCommentChar
  | _ => false

/-- Reads an entry: a store and its size. -/
def entry? (cs : List Char) : Option (Segment × Nat) := do
  let (key, rest) ← key? (skipSpaces cs)
  let segment ← segment? key
  match skipSpaces rest with
  | '=' :: rest =>
    let value := skipSpaces rest
    let size ← natural? (value.takeWhile isNumeric)
    if size ≤ Numeral.sizeMax && isLineEnd (value.dropWhile isNumeric) then some (segment, size)
    else none
  | _ => none

/-- Adds what a line says to the entries before it; no store has two entries. -/
def addLine? (entries : List (Segment × Nat)) (cs : List Char) : Option (List (Segment × Nat)) :=
  if isLineEnd cs then some entries
  else do
    let entry ← entry? cs
    if (entries.lookup entry.1).isSome then none else some (entry :: entries)

/-- The lines of a document. A carriage return belongs to the newline after it, and only there. -/
def lines (cs : List Char) : List (List Char) :=
  let pieces := cs.splitOn '\n'
  pieces.dropLast.map (fun line => if line.getLast? == some '\r' then line.dropLast else line) ++
    pieces.getLast?.toList

/-- A document without the mark of its encoding in front. -/
def unmark : List Char → List Char
  | '\uFEFF' :: cs => cs
  | cs => cs

/-- The capacities that a document gives. -/
def parse? (text : String) : Option Capacities := do
  let entries ← (lines (unmark text.toList)).foldlM addLine? []
  return entries.foldr (fun (segment, size) caps => caps.set size segment) {}

end Toml

/-- Why a configuration is refused. -/
inductive ConfigError where
  /-- It is no document of the expected form. -/
  | malformed
  /-- It leaves a store without room. -/
  | missing (segment : Segment)
  deriving DecidableEq

/-- The wording of the error, followed by that of its cause. -/
def ConfigError.messages : ConfigError → List String
  | malformed => ["invalid capacity configuration", "TOML parse error"]
  | missing segment => [missingMessage segment]

/-- Reads a configuration. -/
def ofConfig (text : String) : Except ConfigError Capacities :=
  match Toml.parse? text with
  | none => .error .malformed
  | some caps => caps.validate.mapError .missing

end Secd.Capacities
