import TapeBasic.Powers

/-!
# Binary floating-point numbers of 64 bits

A finite value is a sign and an exact magnitude, a natural number times a power of two, so every
statement about it is one about whole numbers.

* `Binary64.ofBits` and `Binary64.toBits` pass between values and their 64-bit words.
* `Binary64.ofRatio` is the value nearest to a ratio; a tie goes to the even significand.
-/
namespace TapeBasic

/-- The number `significand * 2 ^ exponent`. -/
structure Magnitude where
  significand : Nat
  exponent : Int
deriving DecidableEq, Repr

/-- A value of the 64-bit binary format. -/
inductive Binary64 where
  | finite (negative : Bool) (magnitude : Magnitude)
  | infinite (negative : Bool)
  | notANumber
deriving DecidableEq, Repr

/-- The quotient rounded to the nearest whole number; a half goes to the even neighbour. -/
def roundHalfEven (num den : Nat) : Nat :=
  let quotient := num / den
  let twice := 2 * (num % den)
  if den < twice || (twice == den && quotient % 2 == 1) then quotient + 1 else quotient

/-- The greatest `k` with `2 ^ k ≤ num / den`, for positive numbers. -/
def floorLog2 (num den : Nat) : Int :=
  let guess : Int := num.log2 - den.log2
  if den * twoTo guess.toNat ≤ num * twoTo (-guess).toNat then guess else guess - 1

namespace Magnitude

/-- Zero. -/
def zero : Magnitude := ⟨0, 0⟩

/-- The numerator of the magnitude as a ratio of whole numbers. -/
def num (v : Magnitude) : Nat := v.significand * twoTo v.exponent.toNat

/-- The denominator of the magnitude as a ratio of whole numbers. -/
def den (v : Magnitude) : Nat := twoTo (-v.exponent).toNat

/-- The exponent of the leading bit of a positive magnitude. -/
def leadingExponent (v : Magnitude) : Int := v.exponent + v.significand.log2

/-- The same number with a significand of 53 bits, or with the least exponent of the format; bits that
do not fit are cut off. -/
def canonical (v : Magnitude) : Magnitude :=
  if v.significand == 0 then ⟨0, -1074⟩
  else
    let exponent := max (v.leadingExponent - 52) (-1074)
    let up := twoTo (v.exponent - exponent).toNat
    let down := twoTo (exponent - v.exponent).toNat
    ⟨v.significand * up / down, exponent⟩

end Magnitude

namespace Binary64

/-- Splits a word into sign, exponent and fraction. -/
def ofBits (word : UInt64) : Binary64 :=
  let bits := word.toNat
  let negative := bits / twoTo 63 == 1
  let exponent : Nat := bits / twoTo 52 % twoTo 11
  let fraction := bits % twoTo 52
  if exponent == 2047 then
    if fraction == 0 then .infinite negative else .notANumber
  else if exponent == 0 then .finite negative ⟨fraction, -1074⟩
  else .finite negative ⟨twoTo 52 + fraction, (exponent : Int) - 1075⟩

/-- The word of a magnitude that the format can hold. -/
def magnitudeBits (v : Magnitude) : Nat :=
  let c := v.canonical
  if c.significand < twoTo 52 then c.significand
  else (c.exponent + 1075).toNat * twoTo 52 + (c.significand - twoTo 52)

/-- The word of a value. -/
def toBits (value : Binary64) : UInt64 :=
  let signed (negative : Bool) (bits : Nat) : UInt64 :=
    UInt64.ofNat (if negative then twoTo 63 + bits else bits)
  match value with
  | .finite negative v => signed negative (magnitudeBits v)
  | .infinite negative => signed negative (2047 * twoTo 52)
  | .notANumber => UInt64.ofNat (2047 * twoTo 52 + twoTo 51)

/-- The value nearest to `num / den`, infinite beyond the range of the format. -/
def ofRatio (num den : Nat) : Binary64 :=
  if num == 0 then .finite false ⟨0, -1074⟩
  else
    let exponent := max (floorLog2 num den - 52) (-1074)
    let significand := roundHalfEven (num * twoTo (-exponent).toNat) (den * twoTo exponent.toNat)
    if 971 < exponent || (exponent == 971 && twoTo 53 ≤ significand) then .infinite false
    else .finite false ⟨significand, exponent⟩

end Binary64

end TapeBasic
