import TapeBasic.Binary64
import TapeBasic.Text.Fold
import TapeBasic.Text.Numeral

/-!
# Numeric literals (`_NUMBER`, `_LITERAL`)

A literal is digits, a fraction after a point, and an exponent after the letter E; a point alone, or a
point that no digit follows, is none of it. `Literal.width` finds how far a literal reaches, and
`Literal.value` is the binary value nearest to it.
-/
namespace TapeBasic.Literal

/-- How many decimal digits the text starts with. -/
def digitCount (text : List Char) : Nat := Text.countWhile Text.isDecimal text

/-- The length of a fraction, a point and at least one digit, at the start of the text, or zero. -/
def fractionWidth : List Char → Nat
  | '.' :: rest => if digitCount rest == 0 then 0 else digitCount rest + 1
  | _ => 0

/-- The length of an exponent at the start of the text, or zero. -/
def exponentWidth : List Char → Nat
  | [] => 0
  | mark :: rest =>
    if Text.sameLetter mark 'E' then
      match rest with
      | [] => 0
      | c :: digits =>
        if c == '+' || c == '-' then
          if digitCount digits == 0 then 0 else digitCount digits + 2
        else
          if digitCount rest == 0 then 0 else digitCount rest + 1
    else 0

/-- The length of the digits and the fraction at the start of the text; zero if there is neither. -/
def mantissaWidth (text : List Char) : Nat :=
  digitCount text + fractionWidth (text.drop (digitCount text))

/-- The length of the literal at the start of the text; zero if there is none (`_NUMBER`). -/
def width (text : List Char) : Nat :=
  if mantissaWidth text == 0 then 0
  else mantissaWidth text + exponentWidth (text.drop (mantissaWidth text))

/-- A decimal number: `coefficient * 10 ^ exponent`. -/
structure Parts where
  coefficient : Nat
  exponent : Int

/-- The number that a literal spells. -/
def parts (literal : List Char) : Parts :=
  let whole := literal.takeWhile Text.isDecimal
  let afterWhole := literal.dropWhile Text.isDecimal
  let fraction :=
    match afterWhole with
    | '.' :: rest => rest.takeWhile Text.isDecimal
    | _ => []
  let exponent : Int :=
    match (literal.drop (mantissaWidth literal)).drop 1 with
    | '-' :: digits => - (Text.digitsValue digits : Int)
    | '+' :: digits => Text.digitsValue digits
    | digits => Text.digitsValue digits
  ⟨Text.digitsValue (whole ++ fraction), exponent - fraction.length⟩

/-- The power of ten beyond which every number is infinite or zero in the binary format. -/
def decimalReach : Int := 400

/-- The binary value nearest to a decimal number. -/
def Parts.nearest (p : Parts) : Binary64 :=
  if p.coefficient == 0 then Binary64.ofRatio 0 1
  else
    let leading : Int := p.exponent + ((Text.decimal p.coefficient).length - 1 : Nat)
    if decimalReach < leading then .infinite false
    else if leading < -decimalReach then Binary64.ofRatio 0 1
    else Binary64.ofRatio (p.coefficient * tenTo p.exponent.toNat) (tenTo (-p.exponent).toNat)

/-- The binary value nearest to a literal. -/
def value (literal : List Char) : Binary64 := (parts literal).nearest

end TapeBasic.Literal
