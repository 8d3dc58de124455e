import TapeBasic.Text.Case

/-!
# Comparing letters without regard to case

Two characters are the same letter when their small forms agree, or are two written forms of one
letter: the long s and s, the dotless i and i, the two small sigmas.
-/
namespace TapeBasic.Text

/-- Small letters beyond ASCII that are another form of a letter. -/
def letterForms : List (Nat × Nat) :=
  [(0x131, 0x69), (0x17F, 0x73), (0x3B9, 0x345), (0x3BC, 0xB5), (0x3C3, 0x3C2), (0x3D0, 0x3B2),
   (0x3D1, 0x3B8), (0x3D5, 0x3C6), (0x3D6, 0x3C0), (0x3F0, 0x3BA), (0x3F1, 0x3C1), (0x3F5, 0x3B5),
   (0x1C80, 0x432), (0x1C81, 0x434), (0x1C82, 0x43E), (0x1C83, 0x441), (0x1C84, 0x442),
   (0x1C85, 0x442), (0x1C86, 0x44A), (0x1C87, 0x463), (0x1E9B, 0x1E61), (0x1FBE, 0x345),
   (0x1FD3, 0x390), (0x1FE3, 0x3B0), (0xA64B, 0x1C88), (0xFB06, 0xFB05)]

/-- The one representative of all forms of a letter. -/
def fold (c : Char) : Char :=
  let s := small c
  if isAscii s then s else Char.ofNat ((letterForms.lookup s.toNat).getD s.toNat)

/-- Whether two characters are forms of one letter, or the same character. -/
def sameLetter (a b : Char) : Bool := fold a == fold b

/-- Whether the character is a form of a letter from A to Z. -/
def isLatinLetter (c : Char) : Bool := (fold c).isLower

/-- Whether the character is a form of a letter from A to Z or one of the ten ASCII digits. -/
def isLatinLetterOrDigit (c : Char) : Bool := isLatinLetter c || c.isDigit

/-- Whether `text` starts with the letters of `word`, in whichever forms. -/
def startsWithLetters : (word text : List Char) → Bool
  | [], _ => true
  | _ :: _, [] => false
  | a :: word, b :: text => sameLetter a b && startsWithLetters word text

end TapeBasic.Text
