import TapeBasic.Powers
import TapeBasic.Text.Blank
import TapeBasic.Text.Digit

/-!
# Numerals

Whole numbers as text. Numbers are written in ASCII digits without leading zeros; a numeral that is
read may use the decimal digits of any script and have leading zeros, but no more than 4300 digits.
-/
namespace TapeBasic.Text

/-! ## Writing -/

/-- The decimal digits of a number. -/
def decimal (n : Nat) : List Char := Nat.toDigits 10 n

/-- The decimal digits of an integer, after a minus sign if it is negative. -/
def signedDecimal (n : Int) : List Char :=
  if n < 0 then '-' :: decimal n.natAbs else decimal n.natAbs

/-- Fills the text up to `width` characters in front. -/
def padLeft (width : Nat) (filler : Char) (text : List Char) : List Char :=
  List.replicate (width - text.length) filler ++ text

/-- Fills the text up to `width` characters at its end. -/
def padRight (width : Nat) (filler : Char) (text : List Char) : List Char :=
  text ++ List.replicate (width - text.length) filler

/-- At least `width` hexadecimal digits in small letters. -/
def smallHex (width n : Nat) : List Char := padLeft width '0' (Nat.toDigits 16 n)

/-- At least `width` hexadecimal digits in capitals. -/
def capitalHex (width n : Nat) : List Char := (smallHex width n).map Char.toUpper

/-! ## Reading -/

/-- No numeral with more digits than this is read or written. -/
def maxDigits : Nat := 4300

/-- The value of a row of decimal digits; other characters count as zero. -/
def digitsValue (digits : List Char) : Nat :=
  digits.foldl (fun value c => 10 * value + (decimalValue? c).getD 0) 0

/-- The value of a row of decimal digits that is not too long. -/
def natural? (digits : List Char) : Option Nat :=
  if digits.length ≤ maxDigits then some (digitsValue digits) else none

/-- Whether a number has too many decimal digits to be written. -/
def isUnwritable (n : Nat) : Bool := tenTo maxDigits ≤ n

/-- The value of a hexadecimal digit. -/
def hexValue? (c : Char) : Option Nat :=
  if c.isDigit then some (c.toNat - 48)
  else if 'a' ≤ c.toLower && c.toLower ≤ 'f' then some (c.toLower.toNat - 87)
  else none

/-- Whether the character is a hexadecimal digit. -/
def isHexDigit (c : Char) : Bool := (hexValue? c).isSome

/-- The value of a row of hexadecimal digits; other characters count as zero. -/
def hexDigitsValue (digits : List Char) : Nat :=
  digits.foldl (fun value c => 16 * value + (hexValue? c).getD 0) 0

/-- A blank that may surround a whole number: any but the separator controls. -/
def isNumeralBlank (c : Char) : Bool := isBlank c && !(28 ≤ c.toNat && c.toNat ≤ 31)

/-- The digits of a numeral whose neighbouring digits may be joined by one underscore; `none` if it is
not such a numeral. -/
def groupedDigits? : List Char → Option (List Char)
  | [] => none
  | [c] => if isDecimal c then some [c] else none
  | c :: '_' :: rest => if isDecimal c then (groupedDigits? rest).map (c :: ·) else none
  | c :: rest => if isDecimal c then (groupedDigits? rest).map (c :: ·) else none

/-- A whole number as a user writes it in a setting: blanks around it, a sign, digits that may be
grouped by underscores. -/
def integer? (text : List Char) : Option Int :=
  let body := (text.dropWhile isNumeralBlank).reverse.dropWhile isNumeralBlank |>.reverse
  let magnitude? (digits : List Char) : Option Int :=
    ((groupedDigits? digits).bind natural?).map Int.ofNat
  match body with
  | '-' :: digits => (magnitude? digits).map (- ·)
  | '+' :: digits => magnitude? digits
  | digits => magnitude? digits

end TapeBasic.Text
