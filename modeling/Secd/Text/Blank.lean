/-!
Blank characters, and the two things programs do with them: take them off the ends of a text, and
cut a text into the fields that stand between them.

A blank is a character with the Unicode property `White_Space`. The property has 25 members, so it
is kept here as the table of its ranges. Texts are lists of characters throughout, which is the form
in which everything below recurses.

          "  LDC   7 "   ── trim ──▶   "LDC   7"
          "  LDC   7 "  ── fields ──▶  "LDC", "7"
-/

namespace Secd.Text

/-- The ranges of the property `White_Space`, first and last member, in increasing order. -/
def blankRanges : List (Nat × Nat) :=
  [(0x0009, 0x000D), (0x0020, 0x0020), (0x0085, 0x0085), (0x00A0, 0x00A0), (0x1680, 0x1680),
   (0x2000, 0x200A), (0x2028, 0x2029), (0x202F, 0x202F), (0x205F, 0x205F), (0x3000, 0x3000)]

example : (blankRanges.map fun (lo, hi) => hi + 1 - lo).sum = 25 := rfl

/-- The character has the property `White_Space`. -/
def isBlank (c : Char) : Bool :=
  blankRanges.any fun (lo, hi) => decide (lo ≤ c.toNat) && decide (c.toNat ≤ hi)

/-- The text without the blanks at its front. -/
def trimFront (cs : List Char) : List Char := cs.dropWhile isBlank

/-- The text without the blanks at its two ends. -/
def trim (cs : List Char) : List Char := (trimFront (trimFront cs).reverse).reverse

/-- The nonempty pieces that the characters in `sep` leave of a text, in order. -/
def fields (sep : Char → Bool) (cs : List Char) : List (List Char) :=
  (cs.splitOnP sep).filter fun piece => !piece.isEmpty

/-- The fields of a text between blanks. -/
def tokens (cs : List Char) : List (List Char) := fields isBlank cs

/-- The text in capitals, as far as the letters of ASCII go; every other character stays. -/
def upper (cs : List Char) : List Char := cs.map Char.toUpper

end Secd.Text
