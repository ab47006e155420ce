import Secd.Text.Numeral

/-!
The words that code is made of: signed integers of 64 bits. They add, subtract and multiply modulo
`2 ^ 64`, are written in decimal, and are read back from any decimal numeral in their range.
-/

namespace Secd

/-- A code word, and the integers that the machine computes with. -/
abbrev Word := Int64

namespace Word

/-- The decimal numeral of a word. -/
def render (w : Word) : String := w.toInt.repr

/-- The word that a numeral stands for, if the text is a numeral in range. -/
def parse (cs : List Char) : Except Numeral.Error Word :=
  (Numeral.signed 0x8000000000000000 0x7FFFFFFFFFFFFFFF cs).map Int64.ofInt

/-- The word as a size or an index, if it is not negative. -/
def toIndex? (w : Word) : Option Nat := w.toInt.toNat?

end Word

end Secd
