/-!
Decimal numerals of bounded size.

A numeral is an optional sign and one or more digits, and nothing else. Reading goes from left to
right, so of two things wrong with a text the leftmost is reported: the digits up to the first
other character may already be too many, and only if they are not does that character matter. As
the value of a run of digits never falls when a digit is added, it is enough to look at the whole
run of leading digits once.
-/

namespace Secd.Numeral

/-- Why a text is not a numeral in range. -/
inductive Error where
  | empty
  | invalidDigit
  | tooLarge
  | tooSmall
  deriving DecidableEq

/-- The wording of the error. -/
def Error.message : Error → String
  | .empty => "cannot parse integer from empty string"
  | .invalidDigit => "invalid digit found in string"
  | .tooLarge => "number too large to fit in target type"
  | .tooSmall => "number too small to fit in target type"

/-- The value of a run of digits. -/
def value (digits : List Char) : Nat := Nat.ofDigitChars 10 digits 0

/-- Reads a text of digits whose value is at most `bound`; beyond it the error is `overflow`. -/
def magnitude (bound : Nat) (overflow : Error) (cs : List Char) : Except Error Nat :=
  let digits := cs.takeWhile Char.isDigit
  if cs.isEmpty then .error .invalidDigit
  else if bound < value digits then .error overflow
  else if (cs.dropWhile Char.isDigit).isEmpty then .ok (value digits)
  else .error .invalidDigit

/-- Reads an integer between `-below` and `above`. -/
def signed (below above : Nat) : List Char → Except Error Int
  | [] => .error .empty
  | '-' :: cs => (magnitude below .tooSmall cs).map fun n => -(n : Int)
  | '+' :: cs => (magnitude above .tooLarge cs).map fun n => (n : Int)
  | cs => (magnitude above .tooLarge cs).map fun n => (n : Int)

/-- Reads a natural number up to `above`; a plus sign may stand before it, a minus sign may not. -/
def unsigned (above : Nat) : List Char → Except Error Nat
  | [] => .error .empty
  | '+' :: cs => magnitude above .tooLarge cs
  | cs => magnitude above .tooLarge cs

/-- The largest size that can be asked for, a number of 64 bits. -/
def sizeMax : Nat := 0xFFFFFFFFFFFFFFFF

/-- Reads a size. -/
def size (cs : List Char) : Except Error Nat := unsigned sizeMax cs

/-! ### Other bases -/

/-- The value of a hexadecimal digit. -/
def hexDigit? (c : Char) : Option Nat :=
  if c.isDigit then some (c.toNat - '0'.toNat)
  else if 'a' ≤ c && c ≤ 'f' then some (c.toNat - 'a'.toNat + 10)
  else if 'A' ≤ c && c ≤ 'F' then some (c.toNat - 'A'.toNat + 10)
  else none

/-- The number with the given digits, if all of them are digits of the base. -/
def digits? (base : Nat) (cs : List Char) : Option Nat :=
  cs.foldlM (fun n c => do
    let d ← hexDigit? c
    if d < base then some (base * n + d) else none) 0

end Secd.Numeral
