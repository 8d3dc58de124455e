/-!
# Ranges of code points

A character class beyond ASCII is a list of inclusive ranges of code points, in increasing order.
-/
namespace TapeBasic.Text

/-- Inclusive ranges of code points. -/
abbrev Ranges := List (Nat × Nat)

/-- Whether one of the ranges holds the character's code point. -/
def Ranges.holds (ranges : Ranges) (c : Char) : Bool :=
  ranges.any fun range => range.1 ≤ c.toNat && c.toNat ≤ range.2

/-- Whether the character is one of the first 128, where every class is settled without a table. -/
def isAscii (c : Char) : Bool := c.toNat < 128

/-- The number of characters at the start of a text that belong to a class. -/
def countWhile (p : Char → Bool) (text : List Char) : Nat := (text.takeWhile p).length

end TapeBasic.Text
