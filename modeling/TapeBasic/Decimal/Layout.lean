import TapeBasic.Text.Numeral

/-!
# Decimal numbers on paper

A positive decimal number is a row of significant digits and the power of ten of the first one. A
layout says where positional notation ends and whether a whole number shows its point.
-/
namespace TapeBasic.Decimal

/-- The digits of a positive number, the first worth `10 ^ exponent` times its value. -/
structure Digits where
  digits : List Char
  exponent : Int
deriving DecidableEq, Repr

/-- How decimal numbers are written. -/
structure Layout where
  /-- Numbers below ten to this power are written with an exponent. -/
  leastPositional : Int
  /-- Numbers from ten to this power on are written with an exponent. -/
  firstScientific : Int
  /-- Whether a whole number in positional notation ends in a point and a zero. -/
  keepsPoint : Bool

/-- The greatest `k` with `10 ^ k ≤ num / den`, found by counting digits. -/
def floorLog10 (num den : Nat) : Int :=
  let guess : Int := (Text.decimal num).length - (Text.decimal den).length
  if den * tenTo guess.toNat ≤ num * tenTo (-guess).toNat then guess else guess - 1

/-- The digits without zeros at their end; one digit stays. -/
def Digits.trimZeros (d : Digits) : Digits :=
  match (d.digits.reverse.dropWhile (· == '0')).reverse with
  | [] => { d with digits := d.digits.take 1 }
  | digits => { d with digits }

/-- The exponent with its sign and at least two digits. -/
def exponentText (exponent : Int) : List Char :=
  'e' :: (if exponent < 0 then '-' else '+') ::
    Text.padLeft 2 '0' (Text.decimal exponent.natAbs)

namespace Layout

/-- One digit, the others after a point, and the exponent. -/
def scientific (d : Digits) : List Char :=
  match d.digits with
  | [] => []
  | [first] => first :: exponentText d.exponent
  | first :: others => first :: '.' :: (others ++ exponentText d.exponent)

/-- The digits with the point in its place. -/
def positional (layout : Layout) (d : Digits) : List Char :=
  if d.exponent < 0 then
    '0' :: '.' :: (List.replicate (-d.exponent - 1).toNat '0' ++ d.digits)
  else
    let whole := d.exponent.toNat + 1
    let front := Text.padRight whole '0' (d.digits.take whole)
    match d.digits.drop whole with
    | [] => if layout.keepsPoint then front ++ ['.', '0'] else front
    | fraction => front ++ '.' :: fraction

/-- The number in the notation its size asks for. -/
def write (layout : Layout) (d : Digits) : List Char :=
  if d.exponent < layout.leastPositional || layout.firstScientific ≤ d.exponent then scientific d
  else layout.positional d

/-- Zero, which has no leading digit. -/
def zero (layout : Layout) : List Char := if layout.keepsPoint then ['0', '.', '0'] else ['0']

end Layout

end TapeBasic.Decimal
