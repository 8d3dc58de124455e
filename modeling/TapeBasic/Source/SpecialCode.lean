import TapeBasic.Text.Fold
import TapeBasic.Text.Numeral

/-!
# Bracketed codes (`_read_special_code`)

Inside a line, codes in brackets stand for bytes: `[#…]` for none, `[n]` for the byte `n`,
`[!block=n]` for `n` zeros and `[!include path]` for the bytes of a file. The words are read in either
case, and blanks, even line ends, may surround the parts of the last two.

`SpecialCode.scan?` finds the code at the start of a text and the number of characters it takes.
-/
namespace TapeBasic

/-- Something read at the start of a text, and how many characters it takes: at least one. -/
structure Lexeme (α : Type) where
  value : α
  width : Nat
  positive : 0 < width

/-- A bracketed code. Numbers are kept as digits, for they may be too long. -/
inductive SpecialCode where
  | comment
  | byte (digits : List Char)
  | block (digits : List Char)
  | file (path : List Char)
deriving DecidableEq, Repr

namespace SpecialCode

/-- A character that may stand inside a comment or a path. -/
def isInner (c : Char) : Bool := c != ']' && c != '\n'

/-- The length of a closing bracket and the blanks in front of it, if the text starts so. -/
def closingWidth? (text : List Char) : Option Nat :=
  let blanks := Text.countWhile Text.isBlank text
  if (text.drop blanks).head? == some ']' then some (blanks + 1) else none

/-- A comment behind the opening bracket. -/
def comment? : List Char → Option (SpecialCode × Nat)
  | '#' :: rest =>
    let inner := Text.countWhile isInner rest
    if (rest.drop inner).head? == some ']' then some (.comment, inner + 2) else none
  | _ => none

/-- The number of a byte behind the opening bracket. -/
def byte? (text : List Char) : Option (SpecialCode × Nat) :=
  let digits := text.takeWhile Text.isDecimal
  if !digits.isEmpty && (text.drop digits.length).head? == some ']' then
    some (.byte digits, digits.length + 1)
  else none

/-- The word that announces a block of zeros. -/
def blockWord : List Char := "!block".toList

/-- The word that announces a file. -/
def fileWord : List Char := "!include".toList

/-- The size of a block behind the word for it. -/
def blockSize? (text : List Char) : Option (SpecialCode × Nat) :=
  let front := Text.countWhile Text.isBlank text
  match text.drop front with
  | '=' :: rest =>
    let back := Text.countWhile Text.isBlank rest
    let digits := (rest.drop back).takeWhile Text.isDecimal
    if digits.isEmpty then none
    else
      (closingWidth? (rest.drop (back + digits.length))).map fun closing =>
        (.block digits, front + 1 + back + digits.length + closing)
  | _ => none

/-- A path behind the word for a file. At least one blank divides them. A path of blanks alone counts
as empty; it needs a blank of its own that is no line end. -/
def filePath? (text : List Char) : Option (SpecialCode × Nat) :=
  let gap := text.takeWhile Text.isBlank
  let rest := text.drop gap.length
  if gap.isEmpty then none
  else if rest.head? == some ']' then
    if gap.tail.any (· != '\n') then some (.file [], gap.length + 1) else none
  else
    let name := rest.takeWhile isInner
    (closingWidth? (rest.drop name.length)).map fun closing =>
      (.file (Text.trimRight name), gap.length + name.length + closing)

/-- A code that a word announces, behind the opening bracket. -/
def worded? (word : List Char) (tail? : List Char → Option (SpecialCode × Nat)) (text : List Char) :
    Option (SpecialCode × Nat) :=
  if Text.startsWithLetters word text then
    (tail? (text.drop word.length)).map fun (code, width) => (code, word.length + width)
  else none

/-- The bracketed code at the start of the text (`_SPECIAL_CODE`). -/
def scan? : List Char → Option (Lexeme SpecialCode)
  | '[' :: text =>
    let found := comment? text <|> byte? text <|> worded? blockWord blockSize? text <|>
      worded? fileWord filePath? text
    found.map fun (code, width) => ⟨code, width + 1, Nat.succ_pos width⟩
  | _ => none

/-- The path of the code at the start of the text, if it includes a file. -/
def path? (text : List Char) : Option (List Char) :=
  match (scan? text).map Lexeme.value with
  | some (.file path) => some path
  | _ => none

/-- The paths of all codes in a text that would include a file, wherever they stand. -/
def paths : List Char → List (List Char)
  | [] => []
  | c :: rest => (path? (c :: rest)).toList ++ paths rest

end SpecialCode

end TapeBasic
