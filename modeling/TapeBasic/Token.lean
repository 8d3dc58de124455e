import TapeBasic.Text.Blank
import TapeBasic.Text.Numeral

/-!
# Tokens (`text_of`, `bracketed_text`)

A stored program is a row of tokens of one byte: a character of the machine's own set, a keyword such
as `PRINT`, or a mark such as the line end. This module gives every byte its spelling.

* Block graphics are a backslash and two characters; inverse characters follow a percent sign.
* A byte without a glyph is spelled as its number in brackets, so every byte has a spelling.
* Keywords carry the spaces that the machine prints around them.
* *Ambiguous* tokens are spelled like ordinary text. Where letters stand for themselves, they are
  written in brackets.
-/
namespace TapeBasic.Token

/-! ## Tokens with a meaning of their own -/

/-- The space. -/
def space : UInt8 := 0x00
/-- The quotation mark. -/
def quote : UInt8 := 0x0B
/-- Ends a program line or a screen row. -/
def lineEnd : UInt8 := 0x76
/-- Announces the five bytes of a stored number. -/
def number : UInt8 := 0x7E
/-- The keyword `DIM`, behind which a variable is named. -/
def dim : UInt8 := 0xE9
/-- The keyword `REM`, behind which letters stand for themselves. -/
def rem : UInt8 := 0xEA
/-- The keyword `LET`, behind which a variable is named. -/
def letToken : UInt8 := 0xF1

/-! ## Spellings -/

/-- The characters from 10 to 3F, and again in inverse video from 90 to BF. -/
def characterSpellings : List String :=
  [ "(", ")", ">", "<", "=", "+", "-", "*", "/", ";", ",", ".", "0", "1", "2", "3",
    "4", "5", "6", "7", "8", "9", "A", "B", "C", "D", "E", "F", "G", "H", "I", "J",
    "K", "L", "M", "N", "O", "P", "Q", "R", "S", "T", "U", "V", "W", "X", "Y", "Z" ]

/-- The graphics and characters from 00 to 0F. -/
def lowSpellings : List String :=
  [ " ", "\\' ", "\\ '", "\\''", "\\. ", "\\: ", "\\.'", "\\:'",
    "\\##", "\\,,", "\\~~", "\"", "#", "$", ":", "?" ]

/-- The functions from 40 to 42 that are spelled like names. -/
def nameSpellings : List String := ["RND", "INKEY$", "PI"]

/-- The inverse graphics and characters from 80 to 8F. -/
def inverseSpellings : List String :=
  [ "\\::", "\\.:", "\\:.", "\\..", "\\':", "\\ :", "\\'.", "\\ .",
    "@@", "\\;;", "\\!!", "\"", "#", "$", ":", "?" ]

/-- The functions, operators and statement keywords from C0 to FF. -/
def keywordSpellings : List String :=
  [ "\\\"", "AT ", "TAB ", "", "CODE ", "VAL ", "LEN ", "SIN ",
    "COS ", "TAN ", "ASN ", "ACS ", "ATN ", "LN ", "EXP ", "INT ",
    "SQR ", "SGN ", "ABS ", "PEEK ", "USR ", "STR$ ", "CHR$ ", "NOT ",
    "**", " OR ", " AND ", "<=", ">=", "<>", " THEN ", " TO ",
    " STEP ", "LPRINT ", "LLIST ", "STOP ", "SLOW ", "FAST ", "NEW ", "SCROLL ",
    "CONT ", "DIM ", "REM ", "FOR ", "GOTO ", "GOSUB ", "INPUT ", "LOAD ",
    "LIST ", "LET ", "PAUSE ", "NEXT ", "POKE ", "PRINT ", "PLOT ", "RUN ",
    "SAVE ", "RAND ", "IF ", "CLS ", "UNPLOT ", "CLEAR ", "RETURN ", "COPY " ]

/-- The glyphs of all 256 bytes; empty for a byte without a glyph (`TOKENS`). -/
def glyphs : Array (List Char) :=
  let noGlyphs : List String := List.replicate 61 ""
  ((lowSpellings ++ characterSpellings ++ nameSpellings ++ noGlyphs ++ inverseSpellings ++
    characterSpellings ++ keywordSpellings).map String.toList).toArray

/-- The glyph of a byte; empty if it has none. -/
def glyph (b : UInt8) : List Char := glyphs[b.toNat]?.getD []

/-- Whether the byte is an inverse character, spelled with a percent sign in front (`INVERSE_FIRST`
to `INVERSE_LAST`). -/
def isInverseCharacter (b : UInt8) : Bool := 0x8B ≤ b && b ≤ 0xBF

/-- The byte as its number in brackets. -/
def code (b : UInt8) : List Char := '[' :: (Text.decimal b.toNat ++ [']'])

/-- The spelling of a byte (`text_of`). -/
def text (b : UInt8) : List Char :=
  match glyph b with
  | [] => code b
  | glyph => if isInverseCharacter b then '%' :: glyph else glyph

/-- The spelling of a byte in brackets, without the spaces around it (`bracketed_text`). -/
def bracketed (b : UInt8) : List Char :=
  match text b with
  | '[' :: rest => '[' :: rest
  | spelling => '[' :: (Text.trim spelling ++ [']'])

/-! ## Classes -/

/-- Whether the token is spelled like ordinary text: a keyword, an operator or one of the functions
that are spelled like names (`is_ambiguous`). -/
def isAmbiguous (b : UInt8) : Bool := (0xC1 ≤ b && b != 0xC3) || (0x40 ≤ b && b ≤ 0x42)

/-- Whether the token may start a statement (`is_command`). -/
def isCommand (b : UInt8) : Bool := 0xE1 ≤ b

/-- Whether the token is a letter in normal video (`is_letter`). -/
def isLetter (b : UInt8) : Bool := 0x26 ≤ b && b ≤ 0x3F

/-- Whether the token is a digit in normal video (`is_digit`). -/
def isDigit (b : UInt8) : Bool := 0x1C ≤ b && b ≤ 0x25

/-! ## Tokens from numbers -/

/-- A number that is no token. -/
structure OutOfRange where
  number : Int
deriving DecidableEq, Repr

/-- What the failure says. -/
def OutOfRange.message (failure : OutOfRange) : List Char :=
  "Token must be 0-255, got ".toList ++ Text.signedDecimal failure.number

/-- The token with this number. -/
def ofInt (n : Int) : Except OutOfRange UInt8 :=
  if 0 ≤ n && n ≤ 255 then .ok (UInt8.ofNat n.toNat) else .error ⟨n⟩

end TapeBasic.Token
