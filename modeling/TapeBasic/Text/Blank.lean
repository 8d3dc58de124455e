import TapeBasic.Text.Ranges

/-!
# Blank characters

Two notions of white space. *Spacing* separates words inside one line: a space or a tab. A *blank* is
any character of the Unicode property of that name together with the four separator controls; blanks
end keywords, surround the parts of a bracketed code and may be line ends.
-/
namespace TapeBasic.Text

/-- A space or a tab. -/
def isSpacing (c : Char) : Bool := c == ' ' || c == '\t'

/-- Blanks beyond ASCII. -/
def wideBlanks : Ranges :=
  [(0x85, 0x85), (0xA0, 0xA0), (0x1680, 0x1680), (0x2000, 0x200A), (0x2028, 0x2029), (0x202F, 0x202F),
   (0x205F, 0x205F), (0x3000, 0x3000)]

/-- A blank: tab to carriage return, the separators 28 to 31, the space, or a blank beyond ASCII. -/
def isBlank (c : Char) : Bool :=
  if isAscii c then
    c == ' ' || (9 ≤ c.toNat && c.toNat ≤ 13) || (28 ≤ c.toNat && c.toNat ≤ 31)
  else wideBlanks.holds c

theorem isBlank_of_isSpacing {c : Char} (h : isSpacing c = true) : isBlank c = true := by
  simp only [isSpacing, Bool.or_eq_true, beq_iff_eq] at h
  rcases h with rfl | rfl <;> rfl

/-- The text without blanks at its end. -/
def trimRight (text : List Char) : List Char := (text.reverse.dropWhile isBlank).reverse

/-- The text without blanks at either end. -/
def trim (text : List Char) : List Char := trimRight (text.dropWhile isBlank)

end TapeBasic.Text
