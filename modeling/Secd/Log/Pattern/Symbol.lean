import Secd.Log.Pattern.Settings
import Secd.Text.Numeral

/-!
The smallest parts of a pattern: characters, families of characters, and conditions on a place. Most
are written with a backslash.

      \n  \x41  \u0041     a character
      \d  \W               a family of characters, or all but the family
      \A  \z  \b  \<       a place: the ends of the text, the edges of words

Which of them can be used depends on the settings. Families and the edges of words are known for
bytes only, as for all scripts they would take tables; and so would the cases of letters. In a
pattern of bytes nothing may match a part of a character.
-/

namespace Secd.Log.Pattern

/-- A smallest part of a pattern. -/
inductive Symbol where
  /-- A character; `isByte` if it is written as two hexadecimal digits. -/
  | char (c : Char) (isByte : Bool)
  /-- Digits, blanks or the characters of words. -/
  | family (negated : Bool)
  /-- A condition on the place; `onWord` if it is on the edge of a word. -/
  | place (onWord : Bool)
  deriving DecidableEq

/-- The first number that is no byte of its own as a character. -/
def asciiEnd : Nat := 128

namespace Symbol

/-- The symbol can be used with the settings. -/
def isUsable (s : Settings) : Symbol → Bool
  | char c isByte => if s.unicode then !s.ignoreCase else !isByte || decide (c.toNat < asciiEnd)
  | family negated => !s.unicode && !negated
  | place onWord => !(s.unicode && onWord)

/-- The symbol can be used in a class of characters with the settings. -/
def isMember (s : Settings) : Symbol → Bool
  | char c _ => if s.unicode then !s.ignoreCase else decide (c.toNat < asciiEnd)
  | family negated => !s.unicode && !negated
  | place _ => false

/-- Reads hexadecimal digits, with spaces before each if they mean nothing. -/
def hexDigits? (s : Settings) : Nat → List Char → Option (List Char × List Char)
  | 0, cs => some ([], cs)
  | count + 1, cs =>
    match s.skip cs with
    | [] => none
    | c :: rest =>
      if (Numeral.hexDigit? c).isSome then
        (hexDigits? s count rest).map fun (digits, rest) => (c :: digits, rest)
      else none

/-- Reads a character by its number, which has `count` hexadecimal digits. -/
def numbered? (s : Settings) (count : Nat) (cs : List Char) : Option (Symbol × List Char) := do
  let (digits, rest) ← hexDigits? s count cs
  let number ← Numeral.digits? 16 digits
  if number.isValidChar then some (char (Char.ofNat number) (count == 2), rest) else none

/-- What single letters and signs stand for behind a backslash. -/
def escapes : List (Char × Symbol) :=
  [('a', char '\x07' false), ('f', char '\x0c' false), ('t', char '\t' false),
   ('n', char '\n' false), ('r', char '\r' false), ('v', char '\x0b' false),
   ('d', family false), ('s', family false), ('w', family false),
   ('D', family true), ('S', family true), ('W', family true),
   ('A', place false), ('z', place false), ('b', place true), ('B', place true),
   ('<', place true), ('>', place true)]

/-- Reads what follows a backslash. Other signs of ASCII stand for themselves. -/
def escape? (s : Settings) : List Char → Option (Symbol × List Char)
  | [] => none
  | 'x' :: cs => numbered? s 2 cs
  | 'u' :: cs => numbered? s 4 cs
  | 'U' :: cs => numbered? s 8 cs
  | c :: cs =>
    match escapes.lookup c with
    | some symbol => some (symbol, cs)
    | none =>
      if asciiEnd ≤ c.toNat || c.isAlphanum then none else some (char c false, cs)

end Symbol

end Secd.Log.Pattern
